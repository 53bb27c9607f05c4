import Canopen.Eds.Import

/-!
# Regrouping

The sections of an EDS come in any order and are regrouped into variables, records and
arrays. Here the entries are traced back to the sections they come from.
-/

namespace Canopen.Eds

open Text

/-! ## Collecting -/

section Collect

variable {α β ε : Type} {f : α → Except ε (Option β)} {l : List α} {bs : List β}

/-- The value of a computation that succeeds with one. -/
def got : Except ε (Option β) → Option β
  | .ok b => b
  | .error _ => none

theorem got_eq_some {x : Except ε (Option β)} {b : β} : got x = some b ↔ x = .ok (some b) := by
  cases x with
  | error e => simp [got]
  | ok o => simp [got]

theorem collect_eq (h : collect f l = .ok bs) :
    (∀ a ∈ l, ∃ b, f a = .ok b) ∧ bs = l.filterMap fun a => got (f a) := by
  induction l generalizing bs with
  | nil =>
    cases h
    exact ⟨fun a ha => (List.not_mem_nil ha).elim, rfl⟩
  | cons a l ih =>
    unfold collect at h
    cases ha : f a with
    | error e =>
      rw [ha] at h
      cases h
    | ok b =>
      rw [ha] at h
      cases hl : collect f l with
      | error e =>
        rw [hl] at h
        cases h
      | ok rest =>
        rw [hl] at h
        cases h
        obtain ⟨hok, hrest⟩ := ih hl
        constructor
        · intro a' ha'
          rcases List.mem_cons.mp ha' with rfl | hmem
          · exact ⟨b, ha⟩
          · exact hok a' hmem
        · have hhead : got (f a) = b := by
            rw [ha]
            rfl
          rw [List.filterMap_cons, hhead, ← hrest]
          cases b <;> rfl

theorem mem_collect (h : collect f l = .ok bs) {b : β} : b ∈ bs ↔ ∃ a ∈ l, f a = .ok (some b) := by
  obtain ⟨hok, hbs⟩ := collect_eq h
  rw [hbs, List.mem_filterMap]
  refine exists_congr fun a => and_congr_right fun ha => ?_
  obtain ⟨b', hb'⟩ := hok a ha
  rw [hb']
  simp [got]

end Collect

/-! ## Sections and their addresses -/

theorem validateUnique_nodup {seen : List (Address × List Char)} {sections : List Section}
    (h : validateUniqueObjectSections seen sections = .ok ()) :
    (sections.filterMap Section.address).Nodup ∧
      ∀ a ∈ sections.filterMap Section.address, a ∉ seen.map Prod.fst := by
  induction sections generalizing seen with
  | nil => exact ⟨List.nodup_nil, fun a ha => (List.not_mem_nil ha).elim⟩
  | cons s rest ih =>
    unfold validateUniqueObjectSections at h
    cases hs : s.address with
    | none =>
      rw [hs] at h
      simpa [hs] using ih h
    | some address =>
      rw [hs] at h
      dsimp only at h
      cases hseen : seen.find? (·.1 == address) with
      | some previous =>
        rw [hseen] at h
        cases h
      | none =>
        rw [hseen] at h
        obtain ⟨hnodup, hnew⟩ := ih h
        have hfresh : address ∉ seen.map Prod.fst := by
          intro hmem
          obtain ⟨p, hp, rfl⟩ := List.mem_map.mp hmem
          have hnot := List.find?_eq_none.mp hseen p hp
          simp at hnot
        rw [List.filterMap_cons_some hs]
        constructor
        · rw [List.nodup_cons]
          refine ⟨fun hmem => ?_, hnodup⟩
          have hnot := hnew address hmem
          simp at hnot
        · intro a ha
          rcases List.mem_cons.mp ha with rfl | hmem
          · exact hfresh
          · have hnot := hnew a hmem
            simp only [List.map_append, List.mem_append, not_or] at hnot
            exact hnot.1

theorem objectSections_unique {sections : List Section}
    (h : (sections.filterMap Section.address).Nodup) :
    ((objectSections sections).map Prod.fst).Nodup := by
  have hsub : ((objectSections sections).map Prod.fst).Sublist (sections.filterMap Section.address) := by
    unfold objectSections
    induction sections with
    | nil => exact .slnil
    | cons s rest ih =>
      have ih := ih (h.sublist ((List.sublist_cons_self s rest).filterMap _))
      cases hs : s.address with
      | none => simpa [hs] using ih
      | some a =>
        by_cases hskip : (isPdoIndex a.1 || a.1 == 0x1021 || a.1 == 0x1022) = true
        · rw [List.filterMap_cons_none (by rw [hs, Option.bind_some, if_pos hskip]), List.filterMap_cons_some hs]
          exact ih.cons _
        · rw [List.filterMap_cons_some (by rw [hs, Option.bind_some, if_neg hskip]),
            List.filterMap_cons_some hs]
          exact ih.cons_cons _
  exact h.sublist hsub

/-! ## Entries and their sections -/

section Entries

variable {lang : Lang} {capacityOverrides : UInt16 → Option ℕ} {sections : List Section}

theorem bind_ok {ε α β : Type} {x : Except ε α} {f : α → Except ε β} {b : β} (h : x.bind f = .ok b) :
    ∃ a, x = .ok a ∧ f a = .ok b := by
  cases x with
  | error e => cases h
  | ok a => exact ⟨a, rfl, h⟩

theorem map_ok {ε α β : Type} {x : Except ε α} {f : α → β} {b : β} (h : x.map f = .ok b) :
    ∃ a, x = .ok a ∧ f a = b := by
  cases x with
  | error e => cases h
  | ok a => exact ⟨a, rfl, Except.ok.inj h⟩

theorem toOption_eq_some {ε α : Type} {x : Except ε α} {a : α} : x.toOption = some a ↔ x = .ok a := by
  cases x <;> simp [Except.toOption]

theorem parseVarEntry_subindex {index : UInt16} {sub : UInt8} {props : Props} {e : SubEntry}
    (h : parseVarEntry lang capacityOverrides index sub props = .ok (some e)) : e.subindex = sub := by
  unfold parseVarEntry at h
  split at h
  · split at h
    · cases h
    · obtain ⟨access, -, h⟩ := bind_ok h
      obtain ⟨default, -, h⟩ := bind_ok h
      obtain ⟨ident, -, h⟩ := bind_ok h
      cases h
      rfl
  · cases h

variable (lang capacityOverrides sections) in
def elements (index : UInt16) : List SubEntry :=
  (objectSections sections).filterMap fun o => got (importSub lang capacityOverrides index o)

theorem importSub_eq_some {index : UInt16} {o : Address × Props} {e : SubEntry} :
    importSub lang capacityOverrides index o = .ok (some e) ↔
      o.1 = (index, some e.subindex) ∧ e.subindex ≠ 0 ∧
        parseVarEntry lang capacityOverrides index e.subindex o.2 = .ok (some e) := by
  obtain ⟨⟨i, sub⟩, props⟩ := o
  cases sub with
  | none => simp [importSub]
  | some sub =>
    by_cases hsub : i = index ∧ sub ≠ 0
    · have heq : importSub lang capacityOverrides index ((i, some sub), props) =
          parseVarEntry lang capacityOverrides index sub props := if_pos hsub
      rw [heq]
      constructor
      · intro h
        have hs := parseVarEntry_subindex h
        rw [hs, hsub.1]
        exact ⟨rfl, hsub.2, h⟩
      · rintro ⟨haddr, -, h⟩
        cases haddr
        exact h
    · have heq : importSub lang capacityOverrides index ((i, some sub), props) = .ok none := if_neg hsub
      rw [heq]
      constructor
      · intro h
        cases h
      · rintro ⟨haddr, hne, -⟩
        cases haddr
        exact (hsub ⟨rfl, hne⟩).elim

theorem mem_elements {index : UInt16} {e : SubEntry} :
    e ∈ elements lang capacityOverrides sections index ↔
      ∃ props, ((index, some e.subindex), props) ∈ objectSections sections ∧ e.subindex ≠ 0 ∧
        parseVarEntry lang capacityOverrides index e.subindex props = .ok (some e) := by
  unfold elements
  rw [List.mem_filterMap]
  constructor
  · rintro ⟨o, ho, hgot⟩
    obtain ⟨haddr, hne, hparse⟩ := importSub_eq_some.mp (got_eq_some.mp hgot)
    exact ⟨o.2, by rw [← haddr]; exact ho, hne, hparse⟩
  · rintro ⟨props, ho, hne, hparse⟩
    exact ⟨_, ho, got_eq_some.mpr (importSub_eq_some.mpr ⟨rfl, hne, hparse⟩)⟩

theorem elements_nodup (h : ((objectSections sections).map Prod.fst).Nodup) (index : UInt16) :
    ((elements lang capacityOverrides sections index).map (·.subindex)).Nodup := by
  unfold elements List.Nodup at *
  rw [List.pairwise_map, List.pairwise_filterMap]
  rw [List.pairwise_map] at h
  refine h.imp fun {o o'} hne e he e' he' hsub => hne ?_
  rw [(importSub_eq_some.mp (got_eq_some.mp he)).1, (importSub_eq_some.mp (got_eq_some.mp he')).1, hsub]

theorem elements_unique (h : ((objectSections sections).map Prod.fst).Nodup) {index : UInt16}
    {e e' : SubEntry} (he : e ∈ elements lang capacityOverrides sections index)
    (he' : e' ∈ elements lang capacityOverrides sections index) (hsub : e.subindex = e'.subindex) :
    e = e' :=
  List.inj_on_of_nodup_map (elements_nodup h index) he he' hsub

variable (lang sections) in
def recordName (index : UInt16) : List Char := sanitizeName lang (mainName sections index)

def SubEntry.prefixed (recordPrefix : List Char) (e : SubEntry) : SubEntry :=
  { e with name := recordPrefix ++ '_' :: e.name }

variable (lang capacityOverrides sections) in
/-- The sub-entries of a record, in the order of their sub-indices. -/
def recordSubs (index : UInt16) : List SubEntry :=
  ((elements lang capacityOverrides sections index).insertionSort
    fun a b => a.subindex ≤ b.subindex).map (SubEntry.prefixed (recordName lang sections index))

variable (lang capacityOverrides sections) in
def recordEntry (index : UInt16) : OdEntry :=
  ⟨index, recordName lang sections index,
    entryKind (recordType sections index) (recordSubs lang capacityOverrides sections index)⟩

theorem newIdent_ok {name ident : List Char} (h : newIdent lang name = .ok ident) : ident = name := by
  unfold newIdent at h
  split_ifs at h
  exact (Except.ok.inj h).symm

theorem collect_prefixName {recordPrefix : List Char} {l l' : List SubEntry}
    (h : collect (prefixName lang recordPrefix) l = .ok l') :
    l' = l.map (SubEntry.prefixed recordPrefix) := by
  obtain ⟨hok, hl'⟩ := collect_eq h
  rw [hl', ← List.filterMap_eq_map]
  refine List.filterMap_congr fun e he => ?_
  obtain ⟨b, hb⟩ := hok e he
  rw [hb]
  obtain ⟨name, hname, rfl⟩ := map_ok hb
  rw [newIdent_ok hname]
  rfl

theorem importRecord_eq {index : UInt16} {o : Option OdEntry}
    (h : importRecord lang capacityOverrides sections index = .ok o) :
    o = if elements lang capacityOverrides sections index = [] then none
      else some (recordEntry lang capacityOverrides sections index) := by
  obtain ⟨subs, hsubs, h⟩ := bind_ok h
  have helements : subs = elements lang capacityOverrides sections index := (collect_eq hsubs).2
  rw [← helements]
  dsimp only at h
  by_cases hempty : subs = []
  · rw [if_pos (List.isEmpty_iff.mpr hempty)] at h
    cases h
    rw [if_pos hempty]
  · rw [if_neg (mt List.isEmpty_iff.mp hempty)] at h
    obtain ⟨renamed, hrenamed, h⟩ := bind_ok h
    obtain ⟨name, hname, rfl⟩ := map_ok h
    rw [if_neg hempty, newIdent_ok hname, collect_prefixName hrenamed, helements]
    rfl

theorem mem_recordIndices {objects : List (Address × Props)} {index : UInt16} :
    index ∈ recordIndices objects ↔ ∃ sub props, ((index, some sub), props) ∈ objects := by
  unfold recordIndices
  rw [List.mem_dedup, List.mem_filterMap]
  constructor
  · rintro ⟨⟨⟨i, sub⟩, props⟩, ho, hmap⟩
    obtain ⟨sub, hsub, rfl⟩ := Option.map_eq_some_iff.mp hmap
    cases hsub
    exact ⟨sub, props, ho⟩
  · rintro ⟨sub, props, ho⟩
    exact ⟨_, ho, rfl⟩

variable (lang capacityOverrides) in
/-- The variable of a main section. -/
def DeclaresVar (index : UInt16) (props : Props) (s : SubEntry) : Prop :=
  objectType props = 0x07 ∧ parseVarEntry lang capacityOverrides index 0 props = .ok (some s)

theorem importVar_eq_some {o : Address × Props} {e : OdEntry} :
    importVar lang capacityOverrides o = .ok (some e) ↔
      ∃ s, o.1 = (e.index, none) ∧ DeclaresVar lang capacityOverrides e.index o.2 s ∧
        e = ⟨e.index, s.name, .var s.var⟩ := by
  obtain ⟨⟨index, sub⟩, props⟩ := o
  cases sub with
  | some sub => simp [importVar]
  | none =>
    by_cases hvar : objectType props = 0x07
    · have heq : importVar lang capacityOverrides ((index, none), props) =
          (parseVarEntry lang capacityOverrides index 0 props).map
            (·.map fun s => ⟨index, s.name, .var s.var⟩) := if_pos hvar
      rw [heq]
      constructor
      · intro h
        obtain ⟨s, hs, hmap⟩ := map_ok h
        obtain ⟨s, rfl, rfl⟩ := Option.map_eq_some_iff.mp hmap
        exact ⟨s, rfl, ⟨hvar, hs⟩, rfl⟩
      · rintro ⟨s, haddr, ⟨-, hs⟩, he⟩
        obtain ⟨rfl, -⟩ := Prod.mk.inj haddr
        rw [hs, he]
        rfl
    · have heq : importVar lang capacityOverrides ((index, none), props) = .ok none := if_neg hvar
      rw [heq]
      constructor
      · intro h
        cases h
      · rintro ⟨s, -, hdecl, -⟩
        exact (hvar hdecl.1).elim

/-- An entry is a variable with a section of its own, or stands for the sub-entries of an
index. -/
theorem mem_importEntries {entries : List OdEntry}
    (h : importEntries lang capacityOverrides sections = .ok entries) {e : OdEntry} :
    e ∈ entries ↔
      (∃ props s, ((e.index, none), props) ∈ objectSections sections ∧
        DeclaresVar lang capacityOverrides e.index props s ∧ e = ⟨e.index, s.name, .var s.var⟩) ∨
      (elements lang capacityOverrides sections e.index ≠ [] ∧
        e = recordEntry lang capacityOverrides sections e.index) := by
  obtain ⟨vars, hvars, h⟩ := bind_ok h
  obtain ⟨records, hrecords, rfl⟩ := map_ok h
  rw [List.mem_insertionSort, List.mem_append, mem_collect hvars, mem_collect hrecords]
  refine or_congr ?_ ?_
  · constructor
    · rintro ⟨o, ho, hvar⟩
      obtain ⟨s, haddr, hdecl, he⟩ := importVar_eq_some.mp hvar
      exact ⟨o.2, s, by rw [← haddr]; exact ho, hdecl, he⟩
    · rintro ⟨props, s, ho, hdecl, he⟩
      exact ⟨_, ho, importVar_eq_some.mpr ⟨s, rfl, hdecl, he⟩⟩
  · constructor
    · rintro ⟨index, -, hrecord⟩
      have heq := importRecord_eq hrecord
      split_ifs at heq with hempty
      have he : e = recordEntry lang capacityOverrides sections index := Option.some.inj heq
      have hindex : e.index = index := by rw [he]; rfl
      rw [hindex]
      exact ⟨hempty, he⟩
    · rintro ⟨hne, he⟩
      obtain ⟨s, hs⟩ := List.exists_mem_of_ne_nil _ hne
      obtain ⟨props, ho, -⟩ := mem_elements.mp hs
      have hindex : e.index ∈ recordIndices (objectSections sections) :=
        mem_recordIndices.mpr ⟨_, _, ho⟩
      obtain ⟨o, ho⟩ := (collect_eq hrecords).1 _ hindex
      refine ⟨e.index, hindex, ?_⟩
      rw [ho, importRecord_eq ho, if_neg hne, ← he]

end Entries

/-! ## Marking

Resolving the PDO mappings changes nothing but the mappable flag of entries. -/

def SubEntry.unmarked (s : SubEntry) : SubEntry := { s with var := { s.var with pdoMappable := false } }

def OdEntry.unmarked (e : OdEntry) : OdEntry :=
  match e.kind with
  | .var v => { e with kind := .var { v with pdoMappable := false } }
  | .record subs => { e with kind := .record (subs.map SubEntry.unmarked) }
  | .array _ => e

theorem markSub_unmarked {sub : UInt8} {subs subs' : List SubEntry} {name : List Char}
    (h : markSub sub subs = some (name, subs')) :
    subs'.map SubEntry.unmarked = subs.map SubEntry.unmarked := by
  induction subs generalizing subs' with
  | nil => cases h
  | cons s subs ih =>
    unfold markSub at h
    split_ifs at h
    · cases h
      rfl
    · obtain ⟨⟨name', rest⟩, hrest, heq⟩ := Option.map_eq_some_iff.mp h
      cases heq
      rw [List.map_cons, ih hrest, List.map_cons]

theorem markEntry_unmarked {index : UInt16} {sub : UInt8} {e e' : OdEntry} {name : List Char}
    (h : markEntry index sub e = some (name, e')) : e'.unmarked = e.unmarked := by
  obtain ⟨i, n, kind⟩ := e
  cases kind with
  | var v =>
    simp only [markEntry] at h
    split_ifs at h
    cases h
    rfl
  | record subs =>
    simp only [markEntry] at h
    split_ifs at h
    obtain ⟨⟨name', subs'⟩, hsubs, heq⟩ := Option.map_eq_some_iff.mp h
    cases heq
    simp only [OdEntry.unmarked, markSub_unmarked hsubs]
  | array a => cases h

theorem markFirst_unmarked {index : UInt16} {sub : UInt8} {es es' : List OdEntry} {name : List Char}
    (h : markFirst index sub es = some (name, es')) :
    es'.map OdEntry.unmarked = es.map OdEntry.unmarked := by
  induction es generalizing es' with
  | nil => cases h
  | cons e es ih =>
    unfold markFirst at h
    split at h
    · rename_i name' e' he
      cases h
      rw [List.map_cons, markEntry_unmarked he, List.map_cons]
    · obtain ⟨⟨name', rest⟩, hrest, heq⟩ := Option.map_eq_some_iff.mp h
      cases heq
      rw [List.map_cons, ih hrest, List.map_cons]

theorem resolveMapping_unmarked (v : UInt32) (entries : List OdEntry) :
    (resolveMapping v entries).2.map OdEntry.unmarked = entries.map OdEntry.unmarked := by
  unfold resolveMapping
  dsimp only
  split
  · rfl
  · split
    · rename_i hmark
      exact markFirst_unmarked hmark
    · rfl

theorem importMappings_unmarked {sections : List Section} {mapIdx : UInt16} {subs : List UInt8}
    {entries : List OdEntry} {r : List PdoMappingDef × List OdEntry}
    (h : importMappings sections mapIdx subs entries = .ok r) :
    r.2.map OdEntry.unmarked = entries.map OdEntry.unmarked := by
  induction subs generalizing entries r with
  | nil =>
    cases h
    rfl
  | cons sub subs ih =>
    obtain ⟨val, -, h⟩ := bind_ok h
    obtain ⟨rest, hrest, rfl⟩ := map_ok h
    rw [ih hrest]
    split_ifs
    · rfl
    · exact resolveMapping_unmarked _ entries

theorem importPdo_unmarked {sections : List Section} {direction : Derive.PdoDirection} {n : ℕ}
    {entries : List OdEntry} {r : Option PdoDef × List OdEntry}
    (h : importPdo sections direction n entries = .ok r) :
    r.2.map OdEntry.unmarked = entries.map OdEntry.unmarked := by
  unfold importPdo at h
  dsimp only at h
  split at h
  · cases h
    rfl
  · obtain ⟨cobId, -, h⟩ := bind_ok h
    obtain ⟨transmissionType, -, h⟩ := bind_ok h
    obtain ⟨inhibitTime, -, h⟩ := bind_ok h
    obtain ⟨eventTimer, -, h⟩ := bind_ok h
    obtain ⟨mapCount, -, h⟩ := bind_ok h
    obtain ⟨mapped, hmapped, h⟩ := bind_ok h
    cases h
    exact importMappings_unmarked hmapped

theorem importPdos_unmarked {sections : List Section} {numbers : List (Derive.PdoDirection × ℕ)}
    {entries : List OdEntry} {r : List PdoDef × List OdEntry}
    (h : importPdos sections numbers entries = .ok r) :
    r.2.map OdEntry.unmarked = entries.map OdEntry.unmarked := by
  induction numbers generalizing entries r with
  | nil =>
    cases h
    rfl
  | cons number rest ih =>
    obtain ⟨pdo, hpdo, h⟩ := bind_ok h
    obtain ⟨pdos, hpdos, h⟩ := bind_ok h
    cases h
    rw [ih hpdos, importPdo_unmarked hpdo]

/-! ## Records and arrays -/

section Grouping

variable (lang : Lang) (capacityOverrides : UInt16 → Option ℕ) (sections : List Section)

/-- The index becomes an array entry: four or more elements, all without a default. -/
def Regrouped (index : UInt16) : Prop :=
  recordType sections index = 0x08 ∧ 4 ≤ (elements lang capacityOverrides sections index).length ∧
    ∀ e ∈ elements lang capacityOverrides sections index, isZeroDefault e.var.defaultValue = true

variable {lang capacityOverrides sections}

theorem mem_recordSubs {index : UInt16} {s : SubEntry} :
    s ∈ recordSubs lang capacityOverrides sections index ↔
      ∃ e ∈ elements lang capacityOverrides sections index,
        e.prefixed (recordName lang sections index) = s := by
  unfold recordSubs
  rw [List.mem_map]
  exact exists_congr fun e => and_congr_left fun _ => List.mem_insertionSort _

theorem length_recordSubs (index : UInt16) : (recordSubs lang capacityOverrides sections index).length =
    (elements lang capacityOverrides sections index).length := by
  unfold recordSubs
  rw [List.length_map, List.length_insertionSort]

theorem entryKind_eq (index : UInt16)
    (hne : elements lang capacityOverrides sections index ≠ []) :
    (¬Regrouped lang capacityOverrides sections index →
      entryKind (recordType sections index) (recordSubs lang capacityOverrides sections index) =
        .record (recordSubs lang capacityOverrides sections index)) ∧
    (Regrouped lang capacityOverrides sections index →
      ∃ first ∈ elements lang capacityOverrides sections index,
        entryKind (recordType sections index) (recordSubs lang capacityOverrides sections index) =
          .array ⟨first.var.typeName, first.var.capacity,
            (elements lang capacityOverrides sections index).length, first.var.access,
            first.var.pdoMappable⟩) := by
  have hguard : (recordType sections index = 0x08 ∧
      4 ≤ (recordSubs lang capacityOverrides sections index).length ∧
      (recordSubs lang capacityOverrides sections index).all (isZeroDefault ·.var.defaultValue) = true) ↔
      Regrouped lang capacityOverrides sections index := by
    unfold Regrouped
    rw [length_recordSubs, List.all_eq_true]
    refine and_congr_right fun _ => and_congr_right fun _ => ⟨?_, ?_⟩
    · intro h e he
      exact h (e.prefixed (recordName lang sections index)) (mem_recordSubs.mpr ⟨e, he, rfl⟩)
    · intro h s hs
      obtain ⟨e, he, rfl⟩ := mem_recordSubs.mp hs
      exact h e he
  have hlen := @length_recordSubs lang capacityOverrides sections index
  have hmem := @mem_recordSubs lang capacityOverrides sections index
  cases hsubs : recordSubs lang capacityOverrides sections index with
  | nil =>
    rw [hsubs, List.length_nil] at hlen
    exact (hne (List.length_eq_zero_iff.mp hlen.symm)).elim
  | cons first rest =>
    rw [hsubs] at hguard hlen hmem
    constructor
    · exact fun h => if_neg (mt hguard.mp h)
    · intro h
      obtain ⟨e, he, hfirst⟩ := hmem.mp (List.mem_cons_self)
      refine ⟨e, he, ?_⟩
      rw [← hlen]
      have hvar : first.var = e.var := by rw [← hfirst]; rfl
      rw [← hvar]
      exact if_pos (hguard.mpr h)

theorem parseEdsContent_ok {content : List Char} {entries : List OdEntry} {pdos : List PdoDef}
    (h : parseEdsContent lang capacityOverrides content = .ok (entries, pdos)) :
    ((parseSections content).filterMap Section.address).Nodup ∧
      ∃ entries₀, importEntries lang capacityOverrides (parseSections content) = .ok entries₀ ∧
        importPdos (parseSections content) pdoNumbers entries₀ = .ok (pdos, entries) := by
  obtain ⟨_, hunique, h⟩ := bind_ok h
  obtain ⟨_, -, h⟩ := bind_ok h
  obtain ⟨entries₀, hentries, h⟩ := bind_ok h
  obtain ⟨imported, hpdos, h⟩ := bind_ok h
  cases h
  exact ⟨(validateUnique_nodup hunique).1, entries₀, hentries, hpdos⟩

end Grouping

/-! ## Small files -/

def asciiLang : Lang where
  isAlphanumeric := Char.isAlphanum
  isIdent := fun l =>
    !l.isEmpty && l.all (fun c => c.isAlphanum || c == '_') && !l.head?.any Char.isDigit
  isExpr := fun l => !l.isEmpty

def byteSection (header name : List Char) : List (List Char) :=
  [header, "ParameterName=".toList ++ name, "DataType=5".toList]

end Canopen.Eds
