import Canopen.Eds.Layout

/-!
# Names of imported objects

The importer turns the address in a mapping entry into a name, and the generator looks the
name up in the flat list of objects, where it takes the first that has it. The list is in
the order of the addresses, so a mapping reaches its object exactly when no object before
it has the same name.
-/

namespace Canopen.Eds

open Pdo Text

/-! ## Fields -/

/-- What the generator reads of an object. -/
structure Field where
  index : UInt16
  subindex : UInt8
  fieldName : List Char
  typeName : DataType
  access : AccessType
  deriving DecidableEq, Repr

def FlatEntry.field (f : FlatEntry) : Field :=
  ⟨f.index, f.subindex, f.fieldName, f.var.typeName, f.var.access⟩

def fieldsOf (entries : List OdEntry) : List Field := (flatten entries).map FlatEntry.field

/-- Marking an entry as mappable does not change its fields. -/
theorem fieldsOf_unmarked {entries entries' : List OdEntry}
    (h : entries'.map OdEntry.unmarked = entries.map OdEntry.unmarked) :
    fieldsOf entries' = fieldsOf entries := by
  have hentry : ∀ e : OdEntry, e.unmarked.flatten.map FlatEntry.field = e.flatten.map FlatEntry.field := by
    intro e
    obtain ⟨index, name, kind⟩ := e
    cases kind with
    | var v => rfl
    | record subs =>
      simp only [OdEntry.unmarked, OdEntry.flatten, List.map_map]
      rfl
    | array a => rfl
  have hmap : ∀ l : List OdEntry, fieldsOf l =
      (l.map OdEntry.unmarked).flatMap fun e => e.flatten.map FlatEntry.field := by
    intro l
    rw [fieldsOf, flatten, List.map_flatMap, List.flatMap_map]
    exact List.flatMap_congr fun e _ => (hentry e).symm
  rw [hmap, hmap, h]

/-- The access check of a definition looks at the first field of a name. -/
theorem findVarAccess_eq (entries : List OdEntry) (name : List Char) :
    findVarAccess entries name =
      ((fieldsOf entries).find? (·.fieldName == name)).map (·.access) := by
  induction entries with
  | nil => rfl
  | cons e entries ih =>
    have hsplit : fieldsOf (e :: entries) = e.flatten.map FlatEntry.field ++ fieldsOf entries := by
      simp [fieldsOf, flatten]
    rw [hsplit, List.find?_append]
    obtain ⟨index, n, kind⟩ := e
    unfold findVarAccess at ih ⊢
    rw [List.findSome?_cons]
    cases kind with
    | var v =>
      by_cases hn : n = name
      · simp [OdEntry.flatten, FlatEntry.field, hn]
      · simp [OdEntry.flatten, FlatEntry.field, hn, ih]
    | record subs =>
      have hfind : (((OdEntry.flatten ⟨index, n, .record subs⟩).map FlatEntry.field).find?
          (·.fieldName == name)).map (·.access) =
          (subs.find? (·.name == name)).map (·.var.access) := by
        simp only [OdEntry.flatten, List.map_map, List.find?_map, Option.map_map]
        rfl
      dsimp only
      rw [← hfind]
      cases ((OdEntry.flatten ⟨index, n, .record subs⟩).map FlatEntry.field).find?
          (·.fieldName == name) with
      | none => simpa using ih
      | some f => rfl
    | array a => simpa [OdEntry.flatten] using ih

/-- The order of the addresses. -/
def Field.Before (f g : Field) : Prop :=
  f.index < g.index ∨ f.index = g.index ∧ f.subindex < g.subindex

theorem Field.Before.irrefl (f : Field) : ¬f.Before f := by
  rintro (h | ⟨-, h⟩)
  · exact Nat.lt_irrefl _ (UInt16.lt_iff_toNat_lt.mp h)
  · exact Nat.lt_irrefl _ (UInt8.lt_iff_toNat_lt.mp h)

theorem Field.Before.asymm {f g : Field} (h : f.Before g) : ¬g.Before f := by
  unfold Field.Before at h ⊢
  rw [UInt16.lt_iff_toNat_lt, UInt8.lt_iff_toNat_lt] at h ⊢
  rw [← UInt16.toNat_inj] at h ⊢
  omega

/-- In an ordered list, the first element with a property has none before it. -/
theorem find_sorted_iff {l : List Field} (h : l.Pairwise Field.Before) {q : Field → Bool} {f : Field} :
    l.find? q = some f ↔ f ∈ l ∧ q f = true ∧ ∀ g ∈ l, g.Before f → q g = false := by
  induction l with
  | nil => simp
  | cons a l ih =>
    obtain ⟨hfirst, hrest⟩ := List.pairwise_cons.mp h
    cases ha : q a with
    | true =>
      rw [List.find?_cons, ha]
      constructor
      · rintro ⟨⟩
        refine ⟨List.mem_cons_self, ha, fun g hg hbefore => ?_⟩
        rcases List.mem_cons.mp hg with rfl | hmem
        · exact (Field.Before.irrefl _ hbefore).elim
        · exact ((hfirst g hmem).asymm hbefore).elim
      · rintro ⟨hf, -, hnone⟩
        rcases List.mem_cons.mp hf with rfl | hmem
        · rfl
        · rw [hnone a List.mem_cons_self (hfirst f hmem)] at ha
          cases ha
    | false =>
      rw [List.find?_cons, ha]
      dsimp only
      rw [ih hrest]
      constructor
      · rintro ⟨hf, hq, hnone⟩
        refine ⟨List.mem_cons_of_mem a hf, hq, fun g hg hbefore => ?_⟩
        rcases List.mem_cons.mp hg with rfl | hmem
        · exact ha
        · exact hnone g hmem hbefore
      · rintro ⟨hf, hq, hnone⟩
        refine ⟨?_, hq, fun g hg => hnone g (List.mem_cons_of_mem a hg)⟩
        rcases List.mem_cons.mp hf with rfl | hmem
        · rw [ha] at hq
          cases hq
        · exact hmem

/-! ## The order of the fields -/

def OdEntry.isVar (e : OdEntry) : Bool :=
  match e.kind with
  | .var _ => true
  | _ => false

/-- Entries in the order of their indices, a variable in front of a record. -/
def OdEntry.Precedes (a b : OdEntry) : Prop :=
  a.index < b.index ∨ a.index = b.index ∧ a.isVar = true ∧ b.isVar = false

/-- An insertion sort is stable: it keeps the order `P` of elements with equal keys. -/
theorem pairwise_orderedInsert {α : Type} {r : α → α → Prop} [DecidableRel r] {Q : α → α → Prop} {a : α}
    {l : List α} (hl : l.Pairwise Q) (hbefore : ∀ b ∈ l, ¬r a b → Q b a)
    (hafter : ∀ b ∈ l, r a b → Q a b) (hmono : ∀ b c, Q b c → r a b → r a c) :
    (l.orderedInsert r a).Pairwise Q := by
  induction l with
  | nil => exact List.pairwise_singleton Q a
  | cons b l ih =>
    obtain ⟨hfirst, hrest⟩ := List.pairwise_cons.mp hl
    rw [List.orderedInsert]
    split_ifs with hab
    · refine List.pairwise_cons.mpr ⟨fun c hc => ?_, hl⟩
      refine hafter c hc ?_
      rcases List.mem_cons.mp hc with rfl | hmem
      · exact hab
      · exact hmono b c (hfirst c hmem) hab
    · refine List.pairwise_cons.mpr ⟨fun c hc => ?_, ?_⟩
      · rcases (List.mem_orderedInsert r).mp hc with rfl | hmem
        · exact hbefore b List.mem_cons_self hab
        · exact hfirst c hmem
      · exact ih hrest (fun c hc => hbefore c (List.mem_cons_of_mem b hc))
          (fun c hc => hafter c (List.mem_cons_of_mem b hc))

theorem precedes_insertionSort {l : List OdEntry}
    (h : l.Pairwise fun a b => a.index ≠ b.index ∨ a.isVar = true ∧ b.isVar = false) :
    (l.insertionSort fun a b => a.index ≤ b.index).Pairwise OdEntry.Precedes := by
  induction l with
  | nil => exact List.Pairwise.nil
  | cons a l ih =>
    obtain ⟨hfirst, hrest⟩ := List.pairwise_cons.mp h
    rw [List.insertionSort_cons]
    refine pairwise_orderedInsert (ih hrest) ?_ ?_ ?_
    · intro b _ hnot
      exact .inl (UInt16.lt_iff_toNat_lt.mpr (Nat.not_le.mp (mt UInt16.le_iff_toNat_le.mpr hnot)))
    · intro b hb hle
      rcases Nat.lt_or_eq_of_le (UInt16.le_iff_toNat_le.mp hle) with hlt | heq
      · exact .inl (UInt16.lt_iff_toNat_lt.mpr hlt)
      · have hindex : a.index = b.index := UInt16.toNat_inj.mp heq
        rcases hfirst b ((List.mem_insertionSort _).mp hb) with hne | hkinds
        · exact (hne hindex).elim
        · exact .inr ⟨hindex, hkinds⟩
    · intro b c hbc hab
      rw [UInt16.le_iff_toNat_le] at hab ⊢
      rcases hbc with hlt | ⟨heq, -⟩
      · exact hab.trans (Nat.le_of_lt (UInt16.lt_iff_toNat_lt.mp hlt))
      · rw [← heq]
        exact hab

section Sorted

variable {lang : Lang} {capacityOverrides : UInt16 → Option ℕ} {sections : List Section}
  {entries : List OdEntry}

theorem isVar_recordEntry (index : UInt16) :
    (recordEntry lang capacityOverrides sections index).isVar = false := by
  unfold OdEntry.isVar recordEntry entryKind
  cases recordSubs lang capacityOverrides sections index with
  | nil => rfl
  | cons first rest =>
    dsimp only
    split_ifs <;> rfl

/-- No two variables and no two records have the same index. -/
theorem importEntries_precedes (h : importEntries lang capacityOverrides sections = .ok entries)
    (hunique : ((objectSections sections).map Prod.fst).Nodup) :
    entries.Pairwise OdEntry.Precedes := by
  obtain ⟨vars, hvars, h⟩ := bind_ok h
  obtain ⟨records, hrecords, rfl⟩ := map_ok h
  refine precedes_insertionSort (List.pairwise_append.mpr ⟨?_, ?_, ?_⟩)
  · rw [(collect_eq hvars).2, List.pairwise_filterMap]
    unfold List.Nodup at hunique
    rw [List.pairwise_map] at hunique
    refine hunique.imp fun {o o'} hne e he e' he' => .inl fun hindex => hne ?_
    obtain ⟨s, haddr, -⟩ := importVar_eq_some.mp (got_eq_some.mp he)
    obtain ⟨s', haddr', -⟩ := importVar_eq_some.mp (got_eq_some.mp he')
    rw [haddr, haddr', hindex]
  · rw [(collect_eq hrecords).2, List.pairwise_filterMap]
    have hnodup : (recordIndices (objectSections sections)).Nodup := List.nodup_dedup _
    refine hnodup.imp fun {i i'} hne e he e' he' => .inl fun hindex => hne ?_
    have hrecord : ∀ {i : UInt16} {e : OdEntry},
        got (importRecord lang capacityOverrides sections i) = some e → e.index = i := by
      intro i e he
      have heq := importRecord_eq (got_eq_some.mp he)
      split_ifs at heq
      rw [Option.some.inj heq]
      rfl
    rw [← hrecord he, ← hrecord he', hindex]
  · intro e he e' he'
    obtain ⟨o, -, ho⟩ := (mem_collect hvars).mp he
    obtain ⟨s, -, -, heq⟩ := importVar_eq_some.mp ho
    obtain ⟨i, -, hi⟩ := (mem_collect hrecords).mp he'
    have heq' := importRecord_eq hi
    split_ifs at heq'
    right
    rw [heq, Option.some.inj heq']
    exact ⟨rfl, isVar_recordEntry i⟩

/-- The sub-entries of a record are ordered. -/
theorem recordSubs_sorted (hunique : ((objectSections sections).map Prod.fst).Nodup) (index : UInt16) :
    (recordSubs lang capacityOverrides sections index).Pairwise fun a b => a.subindex < b.subindex := by
  unfold recordSubs
  rw [List.pairwise_map]
  have hle := List.pairwise_insertionSort (fun a b : SubEntry => a.subindex ≤ b.subindex)
    (elements lang capacityOverrides sections index)
  have hne : (((elements lang capacityOverrides sections index).insertionSort
      fun a b => a.subindex ≤ b.subindex).map (·.subindex)).Nodup :=
    ((List.perm_insertionSort _ _).map _).nodup_iff.mpr (elements_nodup hunique index)
  unfold List.Nodup at hne
  rw [List.pairwise_map] at hne
  refine (hle.and hne).imp fun {a b} h => ?_
  have hle := UInt8.le_iff_toNat_le.mp h.1
  have hne : a.subindex.toNat ≠ b.subindex.toNat := fun heq => h.2 (UInt8.toNat_inj.mp heq)
  change a.subindex < b.subindex
  exact UInt8.lt_iff_toNat_lt.mpr (by omega)

variable (lang capacityOverrides sections) in
/-- The fields the sections declare: variables, and the sub-entries of an index that do not
become an array. -/
def IsField (f : Field) : Prop :=
  (∃ props s, ((f.index, none), props) ∈ objectSections sections ∧
    DeclaresVar lang capacityOverrides f.index props s ∧
    f = ⟨f.index, 0, s.name, s.var.typeName, s.var.access⟩) ∨
  (¬Regrouped lang capacityOverrides sections f.index ∧
    ∃ e ∈ elements lang capacityOverrides sections f.index,
      f = ⟨f.index, e.subindex, recordName lang sections f.index ++ '_' :: e.name, e.var.typeName,
        e.var.access⟩)

theorem flatten_recordEntry (index : UInt16)
    (hne : elements lang capacityOverrides sections index ≠ []) :
    (Regrouped lang capacityOverrides sections index →
      (recordEntry lang capacityOverrides sections index).flatten = []) ∧
    (¬Regrouped lang capacityOverrides sections index →
      (recordEntry lang capacityOverrides sections index).flatten =
        (recordSubs lang capacityOverrides sections index).map fun s =>
          ⟨index, s.subindex, s.name, s.var⟩) := by
  constructor
  · intro hgroup
    obtain ⟨first, -, hkind⟩ := (entryKind_eq index hne).2 hgroup
    simp only [OdEntry.flatten, recordEntry, hkind]
  · intro hgroup
    simp only [OdEntry.flatten, recordEntry, (entryKind_eq index hne).1 hgroup]

theorem mem_fieldsOf (h : importEntries lang capacityOverrides sections = .ok entries) {f : Field} :
    f ∈ fieldsOf entries ↔ IsField lang capacityOverrides sections f := by
  unfold fieldsOf flatten
  rw [List.mem_map]
  simp only [List.mem_flatMap]
  constructor
  · rintro ⟨g, ⟨e, he, hg⟩, rfl⟩
    rcases (mem_importEntries h).mp he with ⟨props, s, ho, hdecl, heq⟩ | ⟨hne, heq⟩
    · rw [heq] at hg
      rw [List.mem_singleton.mp hg]
      exact .inl ⟨props, s, ho, hdecl, rfl⟩
    · rw [heq] at hg
      by_cases hgroup : Regrouped lang capacityOverrides sections e.index
      · rw [(flatten_recordEntry e.index hne).1 hgroup] at hg
        exact (List.not_mem_nil hg).elim
      · rw [(flatten_recordEntry e.index hne).2 hgroup] at hg
        obtain ⟨s, hs, rfl⟩ := List.mem_map.mp hg
        obtain ⟨t, ht, rfl⟩ := mem_recordSubs.mp hs
        exact .inr ⟨hgroup, t, ht, rfl⟩
  · rintro (⟨props, s, ho, hdecl, heq⟩ | ⟨hgroup, e, he, heq⟩)
    · refine ⟨⟨f.index, 0, s.name, s.var⟩, ⟨⟨f.index, s.name, .var s.var⟩, ?_, ?_⟩, heq.symm⟩
      · exact (mem_importEntries h).mpr (.inl ⟨props, s, ho, hdecl, rfl⟩)
      · exact List.mem_singleton.mpr rfl
    · have hne := List.ne_nil_of_mem he
      refine ⟨⟨f.index, e.subindex, recordName lang sections f.index ++ '_' :: e.name, e.var⟩,
        ⟨recordEntry lang capacityOverrides sections f.index, ?_, ?_⟩, heq.symm⟩
      · exact (mem_importEntries h).mpr (.inr ⟨hne, rfl⟩)
      · rw [(flatten_recordEntry f.index hne).2 hgroup]
        exact List.mem_map.mpr ⟨_, mem_recordSubs.mpr ⟨e, he, rfl⟩, rfl⟩

/-- The fields of an import are in the order of their addresses. -/
theorem fieldsOf_sorted (h : importEntries lang capacityOverrides sections = .ok entries)
    (hunique : ((objectSections sections).map Prod.fst).Nodup) :
    (fieldsOf entries).Pairwise Field.Before := by
  have hkind : ∀ e ∈ entries, (e.flatten.map FlatEntry.field).Pairwise Field.Before ∧
      ∀ f ∈ e.flatten.map FlatEntry.field, f.index = e.index ∧
        (e.isVar = true → f.subindex = 0) ∧ (e.isVar = false → f.subindex ≠ 0) := by
    intro e he
    rcases (mem_importEntries h).mp he with ⟨props, s, -, -, heq⟩ | ⟨hne, heq⟩
    · rw [heq]
      refine ⟨List.pairwise_singleton _ _, fun f hf => ?_⟩
      rw [List.mem_singleton.mp hf]
      exact ⟨rfl, fun _ => rfl, fun hvar => (Bool.false_ne_true hvar.symm).elim⟩
    · rw [heq]
      have hindex : (recordEntry lang capacityOverrides sections e.index).index = e.index := rfl
      rw [hindex, isVar_recordEntry]
      by_cases hgroup : Regrouped lang capacityOverrides sections e.index
      · rw [(flatten_recordEntry e.index hne).1 hgroup]
        exact ⟨List.Pairwise.nil, fun f hf => (List.not_mem_nil hf).elim⟩
      · rw [(flatten_recordEntry e.index hne).2 hgroup, List.map_map]
        constructor
        · rw [List.pairwise_map]
          exact (recordSubs_sorted hunique e.index).imp fun hlt => .inr ⟨rfl, hlt⟩
        · intro f hf
          obtain ⟨s, hs, rfl⟩ := List.mem_map.mp hf
          obtain ⟨t, ht, rfl⟩ := mem_recordSubs.mp hs
          obtain ⟨-, -, hsub, -⟩ := mem_elements.mp ht
          exact ⟨rfl, fun hvar => (Bool.false_ne_true hvar).elim, fun _ => hsub⟩
  unfold fieldsOf flatten
  rw [List.map_flatMap, List.pairwise_flatMap]
  refine ⟨fun e he => (hkind e he).1, ?_⟩
  refine (importEntries_precedes h hunique).imp_of_mem fun {a b} ha hb hprec f hf g hg => ?_
  obtain ⟨hfi, hfvar, -⟩ := (hkind a ha).2 f hf
  obtain ⟨hgi, -, hgrec⟩ := (hkind b hb).2 g hg
  rcases hprec with hlt | ⟨heq, hvar, hrec⟩
  · left
    rw [hfi, hgi]
    exact hlt
  · right
    rw [hfi, hgi, hfvar hvar]
    have hpos : g.subindex.toNat ≠ 0 := fun h0 => hgrec hrec (UInt8.toNat_inj.mp h0)
    exact ⟨heq, UInt8.lt_iff_toNat_lt.mpr (Nat.pos_of_ne_zero hpos)⟩

end Sorted

/-! ## Marks -/

/-- The object of an address is marked as mappable. -/
def Marked (entries : List OdEntry) (index : UInt16) (sub : UInt8) : Prop :=
  ∃ f ∈ flatten entries, f.index = index ∧ f.subindex = sub ∧ f.var.pdoMappable = true

theorem marked_cons {e : OdEntry} {es : List OdEntry} {index : UInt16} {sub : UInt8} :
    Marked (e :: es) index sub ↔
      (∃ f ∈ e.flatten, f.index = index ∧ f.subindex = sub ∧ f.var.pdoMappable = true) ∨
        Marked es index sub := by
  unfold Marked flatten
  simp only [List.flatMap_cons, List.mem_append, or_and_right, exists_or]

theorem markSub_marks {sub : UInt8} {subs subs' : List SubEntry} {name : List Char}
    (h : markSub sub subs = some (name, subs')) :
    (∃ s ∈ subs', s.subindex = sub ∧ s.var.pdoMappable = true) ∧
      ∀ s ∈ subs, s.var.pdoMappable = true →
        ∃ s' ∈ subs', s'.subindex = s.subindex ∧ s'.var.pdoMappable = true := by
  induction subs generalizing subs' with
  | nil => cases h
  | cons t subs ih =>
    unfold markSub at h
    split_ifs at h with ht
    · cases h
      refine ⟨⟨_, List.mem_cons_self, ht, rfl⟩, fun s hs hmark => ?_⟩
      rcases List.mem_cons.mp hs with rfl | hmem
      · exact ⟨_, List.mem_cons_self, rfl, rfl⟩
      · exact ⟨s, List.mem_cons_of_mem _ hmem, rfl, hmark⟩
    · obtain ⟨⟨name', rest⟩, hrest, heq⟩ := Option.map_eq_some_iff.mp h
      cases heq
      obtain ⟨⟨s, hs, hsub⟩, hkeep⟩ := ih hrest
      refine ⟨⟨s, List.mem_cons_of_mem _ hs, hsub⟩, fun s hs hmark => ?_⟩
      rcases List.mem_cons.mp hs with rfl | hmem
      · exact ⟨s, List.mem_cons_self, rfl, hmark⟩
      · obtain ⟨s', hs', hsub'⟩ := hkeep s hmem hmark
        exact ⟨s', List.mem_cons_of_mem _ hs', hsub'⟩

theorem markEntry_marks {index : UInt16} {sub : UInt8} {e e' : OdEntry} {name : List Char}
    (h : markEntry index sub e = some (name, e')) :
    (∃ f ∈ e'.flatten, f.index = index ∧ f.subindex = sub ∧ f.var.pdoMappable = true) ∧
      ∀ f ∈ e.flatten, f.var.pdoMappable = true →
        ∃ f' ∈ e'.flatten, f'.index = f.index ∧ f'.subindex = f.subindex ∧ f'.var.pdoMappable = true := by
  obtain ⟨i, n, kind⟩ := e
  cases kind with
  | var v =>
    simp only [markEntry] at h
    split_ifs at h with haddr
    cases h
    refine ⟨⟨_, List.mem_cons_self, haddr.1, haddr.2.symm, rfl⟩, fun f hf hmark => ?_⟩
    rw [List.mem_singleton.mp hf]
    exact ⟨_, List.mem_cons_self, rfl, rfl, rfl⟩
  | record subs =>
    simp only [markEntry] at h
    split_ifs at h with hindex
    obtain ⟨⟨name', subs'⟩, hsubs, heq⟩ := Option.map_eq_some_iff.mp h
    cases heq
    obtain ⟨⟨s, hs, hsub, hmark⟩, hkeep⟩ := markSub_marks hsubs
    refine ⟨⟨_, List.mem_map_of_mem hs, hindex, hsub, hmark⟩, fun f hf hmark => ?_⟩
    obtain ⟨s, hs, rfl⟩ := List.mem_map.mp hf
    obtain ⟨s', hs', hsub', hmark'⟩ := hkeep s hs hmark
    exact ⟨_, List.mem_map_of_mem hs', rfl, hsub', hmark'⟩
  | array a => cases h

theorem markFirst_marks {index : UInt16} {sub : UInt8} {es es' : List OdEntry} {name : List Char}
    (h : markFirst index sub es = some (name, es')) :
    Marked es' index sub ∧ ∀ index' sub', Marked es index' sub' → Marked es' index' sub' := by
  induction es generalizing es' with
  | nil => cases h
  | cons e es ih =>
    unfold markFirst at h
    split at h
    · rename_i name' e' he
      cases h
      obtain ⟨hmark, hkeep⟩ := markEntry_marks he
      refine ⟨marked_cons.mpr (.inl hmark), fun index' sub' hold => ?_⟩
      rcases marked_cons.mp hold with ⟨f, hf, rfl, rfl, hm⟩ | hrest
      · exact marked_cons.mpr (.inl (hkeep f hf hm))
      · exact marked_cons.mpr (.inr hrest)
    · obtain ⟨⟨name', rest⟩, hrest, heq⟩ := Option.map_eq_some_iff.mp h
      cases heq
      obtain ⟨hmark, hkeep⟩ := ih hrest
      refine ⟨marked_cons.mpr (.inr hmark), fun index' sub' hold => ?_⟩
      rcases marked_cons.mp hold with hhead | htail
      · exact marked_cons.mpr (.inl hhead)
      · exact marked_cons.mpr (.inr (hkeep index' sub' htail))

theorem resolveMapping_marks (v : UInt32) (entries : List OdEntry) :
    (∀ m, (resolveMapping v entries).1 = some m → m.rawMapping = none →
      Marked (resolveMapping v entries).2 (v >>> 16).toUInt16 (v >>> 8).toUInt8) ∧
    ∀ index sub, Marked entries index sub → Marked (resolveMapping v entries).2 index sub := by
  unfold resolveMapping
  dsimp only
  split
  · refine ⟨?_, fun _ _ h => h⟩
    intro m hm hraw
    cases hm
    cases hraw
  · split
    · rename_i hmark
      exact ⟨fun _ _ _ => (markFirst_marks hmark).1, (markFirst_marks hmark).2⟩
    · refine ⟨?_, fun _ _ h => h⟩
      intro m hm
      cases hm

theorem importMappings_marks {sections : List Section} {mapIdx : UInt16} {subs : List UInt8}
    {entries : List OdEntry} {r : List PdoMappingDef × List OdEntry}
    (h : importMappings sections mapIdx subs entries = .ok r) :
    (∀ index sub, Marked entries index sub → Marked r.2 index sub) ∧
      ∀ sub ∈ subs, ∀ v, valueOf (mappingValue sections mapIdx sub) = v → v ≠ 0 →
        ∀ m, mappingFor entries (UInt32.ofNat v) = some m → m.rawMapping = none →
          Marked r.2 (UInt32.ofNat v >>> 16).toUInt16 (UInt32.ofNat v >>> 8).toUInt8 := by
  induction subs generalizing entries r with
  | nil =>
    cases h
    exact ⟨fun _ _ h => h, fun sub hsub => (List.not_mem_nil hsub).elim⟩
  | cons sub subs ih =>
    obtain ⟨val, hval, h⟩ := bind_ok h
    obtain ⟨rest, hrest, rfl⟩ := map_ok h
    obtain ⟨hkeep, hmarks⟩ := ih hrest
    by_cases hzero : val = 0
    · simp only [hzero, if_true] at hkeep hmarks
      refine ⟨hkeep, fun sub' hsub' v hv hne => ?_⟩
      rcases List.mem_cons.mp hsub' with rfl | hmem
      · rw [hval] at hv
        exact (hne (hv.symm.trans hzero)).elim
      · exact hmarks sub' hmem v hv hne
    · simp only [hzero, if_false] at hkeep hmarks
      obtain ⟨hmark, hold⟩ := resolveMapping_marks (UInt32.ofNat val) entries
      have hsame := resolveMapping_unmarked (UInt32.ofNat val) entries
      refine ⟨fun index s hm => hkeep index s (hold index s hm), fun sub' hsub' v hv hne m hm hraw => ?_⟩
      rcases List.mem_cons.mp hsub' with rfl | hmem
      · rw [hval] at hv
        cases hv
        exact hkeep _ _ (hmark m ((resolveMapping_fst _ entries).trans hm) hraw)
      · exact hmarks sub' hmem v hv hne m ((mappingFor_unmarked hsame _).trans hm) hraw

/-- The objects the entries of a PDO name are marked. -/
def PdoMarked (sections : List Section) (entries entries' : List OdEntry) (p : PdoDef) : Prop :=
  ∀ sub ∈ descriptorSubs sections p.mapIdx, ∀ v, UInt32.ofNat (descriptor sections p.mapIdx sub) = v →
    ∀ m, importedMapping sections entries p.mapIdx sub = some m → m.rawMapping = none →
      Marked entries' (v >>> 16).toUInt16 (v >>> 8).toUInt8

theorem importPdo_marks {sections : List Section} (hnodup : (sections.filterMap Section.address).Nodup)
    {direction : Derive.PdoDirection} {n : ℕ} {entries : List OdEntry} {r : Option PdoDef × List OdEntry}
    (h : importPdo sections direction n entries = .ok r) :
    (∀ index sub, Marked entries index sub → Marked r.2 index sub) ∧
      ∀ p, r.1 = some p → PdoMarked sections entries r.2 p := by
  unfold importPdo at h
  dsimp only at h
  split at h
  · cases h
    refine ⟨fun _ _ h => h, ?_⟩
    intro p hp
    cases hp
  · obtain ⟨cobId, -, h⟩ := bind_ok h
    obtain ⟨transmissionType, -, h⟩ := bind_ok h
    obtain ⟨inhibitTime, -, h⟩ := bind_ok h
    obtain ⟨eventTimer, -, h⟩ := bind_ok h
    obtain ⟨mapCount, hcount, h⟩ := bind_ok h
    obtain ⟨mapped, hmapped, h⟩ := bind_ok h
    cases h
    obtain ⟨hkeep, hmarks⟩ := importMappings_marks hmapped
    refine ⟨hkeep, ?_⟩
    rintro p hp sub hsub v rfl m hm hraw
    cases hp
    have hidx : direction.mapBase + (UInt16.ofNat (n + 1) - 1) = direction.mapBase + UInt16.ofNat n := by
      congr 1
      rw [UInt16.ofNat_add]
      exact UInt16.add_sub_cancel _ _
    simp only [PdoDef.mapIdx, hidx] at hsub hm ⊢
    obtain ⟨h0, hc, hmapping⟩ := canonical_of_imported hm
    obtain ⟨hmem, hne⟩ := List.mem_filter.mp hsub
    rw [mapCount_of_canonical hnodup h0 hcount] at hmarks
    exact hmarks sub hmem _ (mappingValue_of_canonical hnodup hc) (by simpa using hne) m hmapping hraw

theorem importedMapping_unmarked {entries entries' : List OdEntry}
    (h : entries'.map OdEntry.unmarked = entries.map OdEntry.unmarked) (sections : List Section)
    (mapIdx : UInt16) (sub : UInt8) :
    importedMapping sections entries' mapIdx sub = importedMapping sections entries mapIdx sub := by
  unfold importedMapping
  rw [mappingFor_unmarked h]

theorem importPdos_marks {sections : List Section} (hnodup : (sections.filterMap Section.address).Nodup)
    {numbers : List (Derive.PdoDirection × ℕ)} {entries : List OdEntry} {r : List PdoDef × List OdEntry}
    (h : importPdos sections numbers entries = .ok r) :
    (∀ index sub, Marked entries index sub → Marked r.2 index sub) ∧
      ∀ p ∈ r.1, PdoMarked sections entries r.2 p := by
  induction numbers generalizing entries r with
  | nil =>
    cases h
    exact ⟨fun _ _ h => h, fun p hp => (List.not_mem_nil hp).elim⟩
  | cons number rest ih =>
    obtain ⟨pdo, hpdo, h⟩ := bind_ok h
    obtain ⟨pdos, hpdos, h⟩ := bind_ok h
    cases h
    obtain ⟨hkeep, hmarks⟩ := importPdo_marks hnodup hpdo
    obtain ⟨hkeep', hmarks'⟩ := ih hpdos
    refine ⟨fun index sub hm => hkeep' _ _ (hkeep _ _ hm), fun p hp => ?_⟩
    rcases List.mem_append.mp hp with hhead | htail
    · intro sub hsub v hv m hm hraw
      exact hkeep' _ _ (hmarks p (by simpa using hhead) sub hsub v hv m hm hraw)
    · intro sub hsub v hv m hm hraw
      refine hmarks' p htail sub hsub v hv m ?_ hraw
      rw [importedMapping_unmarked (importPdo_unmarked hpdo)]
      exact hm

/-! ## Resolution of imported mappings -/

/-- The three parts of a mapping entry. -/
def ResolvedMapping.ofRaw (v : UInt32) : ResolvedMapping :=
  ⟨(v >>> 16).toUInt16, (v >>> 8).toUInt8, v.toUInt8⟩

def declaredEntry (sections : List Section) (mapIdx : UInt16) (sub : UInt8) : ResolvedMapping :=
  .ofRaw (UInt32.ofNat (descriptor sections mapIdx sub))

def ResolvedMapping.isPadding (m : ResolvedMapping) : Bool := isDummyMappingIndex m.index

/-- The declared entries that name an object. -/
def namedSubs (sections : List Section) (mapIdx : UInt16) : List UInt8 :=
  (descriptorSubs sections mapIdx).filter fun sub => !(declaredEntry sections mapIdx sub).isPadding

def fieldAt (entries : List OdEntry) (m : ResolvedMapping) : Option Field :=
  (fieldsOf entries).find? fun f => f.index == m.index && f.subindex == m.subindex

def entryFound (sections : List Section) (mapIdx : UInt16) (sub : UInt8) : Bool :=
  (getSectionProps sections (subText mapIdx 0)).isSome &&
    (getSectionProps sections (subText mapIdx sub)).isSome

/-- The generator resolves every declared entry to its own address, and the access check looks
at the object there. -/
structure ResolvesRight (sections : List Section) (entries : List OdEntry) (p : PdoDef) : Prop where
  resolved : ∃ rs, resolvePdoMappings (flatten entries) p = .ok rs ∧
    rs.filter (fun r => !r.isPadding) =
      (namedSubs sections p.mapIdx).map (declaredEntry sections p.mapIdx)
  access : (p.mappings.filter (·.rawMapping.isNone)).map (fun m => findVarAccess entries m.fieldName) =
    (namedSubs sections p.mapIdx).map fun sub =>
      (fieldAt entries (declaredEntry sections p.mapIdx sub)).map (·.access)

section

variable (lang : Lang) (capacityOverrides : UInt16 → Option ℕ) (sections : List Section)

/-- A mapping entry names a field of a fixed size, and no field before it has the same name. -/
def Reached (m : ResolvedMapping) : Prop :=
  ∃ f, IsField lang capacityOverrides sections f ∧ f.index = m.index ∧ f.subindex = m.subindex ∧
    f.typeName.size.isSome = true ∧
    ∀ g, IsField lang capacityOverrides sections g → g.Before f → g.fieldName ≠ f.fieldName

/-- The bits of the entries whose sections the importer finds. -/
def foundBits (mapIdx : UInt16) : ℕ :=
  (((descriptorSubs sections mapIdx).filter (entryFound sections mapIdx)).map fun sub =>
    (declaredEntry sections mapIdx sub).bitLength.toNat).sum

/-- Every object is found and reached by its name, and the entries fit in a frame. -/
structure NamesReach (mapIdx : UInt16) : Prop where
  reached : ∀ sub ∈ namedSubs sections mapIdx, Canonical sections mapIdx 0 ∧
    Canonical sections mapIdx sub ∧
    Reached lang capacityOverrides sections (declaredEntry sections mapIdx sub)
  fits : foundBits sections mapIdx ≤ pdoMaxPayloadBits

end

theorem resolveFields_ok {flat : List FlatEntry} {ms : List PdoMappingDef} {rs : List ResolvedMapping} :
    resolveFields flat ms = .ok rs ↔
      (∀ m ∈ ms, (resolveField flat m).toOption.isSome = true) ∧
        rs = ms.filterMap fun m => (resolveField flat m).toOption := by
  induction ms generalizing rs with
  | nil =>
    constructor
    · intro h
      cases h
      exact ⟨fun m hm => (List.not_mem_nil hm).elim, rfl⟩
    · rintro ⟨-, rfl⟩
      rfl
  | cons m ms ih =>
    unfold resolveFields
    cases hm : resolveField flat m with
    | error e => simp [hm, Except.toOption]
    | ok r =>
      dsimp only
      rw [List.forall_mem_cons, hm, List.filterMap_cons]
      simp only [hm, Except.toOption, Option.isSome_some, true_and]
      constructor
      · intro h
        obtain ⟨rest, hrest, rfl⟩ := map_ok h
        obtain ⟨hall, heq⟩ := ih.mp hrest
        exact ⟨hall, congrArg _ heq⟩
      · rintro ⟨hall, rfl⟩
        rw [ih.mpr ⟨hall, rfl⟩]
        rfl

/-- Filtering keeps every element exactly when each has its image. -/
theorem filterMap_eq_map_iff {α β : Type} {f : α → Option β} {k : α → β} {l : List α} :
    l.filterMap f = l.map k ↔ ∀ a ∈ l, f a = some (k a) := by
  induction l with
  | nil => simp
  | cons a l ih =>
    cases ha : f a with
    | none =>
      refine iff_of_false ?_ ?_
      · intro heq
        rw [List.filterMap_cons_none ha] at heq
        have hlen := congrArg List.length heq
        have hle := List.length_filterMap_le f l
        simp only [List.length_map, List.length_cons] at hlen
        omega
      · intro hall
        have hhead := hall a List.mem_cons_self
        rw [ha] at hhead
        cases hhead
    | some b => simp [ha, ih]

theorem fieldName_eq (entries : List OdEntry) (v : UInt32) :
    fieldName entries (v >>> 16).toUInt16 (v >>> 8).toUInt8 =
      (fieldAt entries (.ofRaw v)).map (·.fieldName) := by
  unfold fieldAt ResolvedMapping.ofRaw
  dsimp only
  generalize (v >>> 16).toUInt16 = index
  generalize (v >>> 8).toUInt8 = sub
  induction entries with
  | nil => rfl
  | cons e entries ih =>
    have hsplit : fieldsOf (e :: entries) = e.flatten.map FlatEntry.field ++ fieldsOf entries := by
      simp [fieldsOf, flatten]
    have hentry : e.nameAt index sub = ((e.flatten.map FlatEntry.field).find?
        fun f => f.index == index && f.subindex == sub).map (·.fieldName) := by
      obtain ⟨i, n, kind⟩ := e
      cases kind with
      | var v =>
        by_cases haddr : i = index ∧ sub = 0
        · obtain ⟨rfl, rfl⟩ := haddr
          simp [OdEntry.nameAt, OdEntry.flatten, FlatEntry.field]
        · have hother : (i == index && (0 : UInt8) == sub) = false := by
            rw [Bool.eq_false_iff, ne_eq, Bool.and_eq_true, beq_iff_eq, beq_iff_eq]
            exact fun h => haddr ⟨h.1, h.2.symm⟩
          simp [OdEntry.nameAt, OdEntry.flatten, FlatEntry.field, haddr, hother]
      | record subs =>
        simp only [OdEntry.flatten, List.map_map, List.find?_map, Option.map_map, OdEntry.nameAt]
        by_cases hi : i = index
        · simp [hi, FlatEntry.field, Function.comp_def]
        · simp [hi, FlatEntry.field, Function.comp_def]
      | array a => rfl
    rw [hsplit, List.find?_append]
    unfold fieldName at ih ⊢
    rw [List.findSome?_cons, hentry]
    cases (e.flatten.map FlatEntry.field).find? fun f => f.index == index && f.subindex == sub with
    | none => simpa using ih
    | some f => rfl

section Reaching

variable {lang : Lang} {capacityOverrides : UInt16 → Option ℕ} {sections : List Section}
  {entries₀ entries : List OdEntry}

/-- An address has one field. -/
theorem fieldAt_eq_some (hsorted : (fieldsOf entries).Pairwise Field.Before) {m : ResolvedMapping}
    {f : Field} :
    fieldAt entries m = some f ↔ f ∈ fieldsOf entries ∧ f.index = m.index ∧ f.subindex = m.subindex := by
  unfold fieldAt
  rw [find_sorted_iff hsorted, Bool.and_eq_true, beq_iff_eq, beq_iff_eq]
  constructor
  · exact fun h => ⟨h.1, h.2.1⟩
  · rintro ⟨hf, hi, hs⟩
    refine ⟨hf, ⟨hi, hs⟩, fun g _ hbefore => ?_⟩
    rw [Bool.eq_false_iff, ne_eq, Bool.and_eq_true, beq_iff_eq, beq_iff_eq]
    rintro ⟨hgi, hgs⟩
    unfold Field.Before at hbefore
    rw [hi, hs, hgi, hgs] at hbefore
    exact Field.Before.irrefl ⟨m.index, m.subindex, f.fieldName, f.typeName, f.access⟩ hbefore

/-- The object of a marked address can be mapped. -/
theorem pdoMappable_of_marked (hsorted : (fieldsOf entries).Pairwise Field.Before) {e : FlatEntry}
    (he : e ∈ flatten entries) (hmarked : Marked entries e.index e.subindex) :
    e.var.pdoMappable = true := by
  obtain ⟨e', he', hi, hs, hmark⟩ := hmarked
  have hnodup : ((flatten entries).map fun e => (e.index, e.subindex)).Nodup := by
    unfold fieldsOf at hsorted
    rw [List.pairwise_map] at hsorted
    refine List.pairwise_map.mpr (hsorted.imp fun {a b} hbefore heq => ?_)
    obtain ⟨hai, has⟩ := Prod.mk.inj heq
    unfold Field.Before FlatEntry.field at hbefore
    dsimp only at hbefore
    rw [hai, has] at hbefore
    exact Field.Before.irrefl b.field hbefore
  rw [List.inj_on_of_nodup_map hnodup he he' (Prod.ext hi.symm hs.symm)]
  exact hmark

/-- The mapping of an object by its name reaches the object exactly when no field before it
has that name. -/
theorem resolveField_iff (hsorted : (fieldsOf entries).Pairwise Field.Before)
    (hfields : ∀ f, f ∈ fieldsOf entries ↔ IsField lang capacityOverrides sections f)
    {v : UInt32} {name : List Char}
    (hname : (fieldAt entries (.ofRaw v)).map (·.fieldName) = some name)
    (hmarked : Marked entries (v >>> 16).toUInt16 (v >>> 8).toUInt8) :
    resolveField (flatten entries) ⟨name, some v.toUInt8, none⟩ = .ok (.ofRaw v) ↔
      Reached lang capacityOverrides sections (.ofRaw v) := by
  obtain ⟨f, hf, rfl⟩ := Option.map_eq_some_iff.mp hname
  obtain ⟨hmem, hi, hs⟩ := (fieldAt_eq_some hsorted).mp hf
  have hfind : ∀ g, ((flatten entries).find? (·.fieldName == f.fieldName)).map FlatEntry.field = some g ↔
      g ∈ fieldsOf entries ∧ (g.fieldName == f.fieldName) = true ∧
        ∀ k ∈ fieldsOf entries, k.Before g → (k.fieldName == f.fieldName) = false := by
    intro g
    have hsame : (fieldsOf entries).find? (·.fieldName == f.fieldName) =
        ((flatten entries).find? (·.fieldName == f.fieldName)).map FlatEntry.field := List.find?_map ..
    rw [← hsame]
    exact find_sorted_iff hsorted
  unfold resolveField
  dsimp only
  constructor
  · intro h
    cases hfound : (flatten entries).find? (·.fieldName == f.fieldName) with
    | none =>
      rw [hfound] at h
      cases h
    | some e =>
      rw [hfound] at h
      dsimp only at h
      split_ifs at h with hmap hsize
      have haddr := Except.ok.inj h
      rw [ResolvedMapping.mk.injEq] at haddr
      have hfirst := (hfind e.field).mp (by rw [hfound]; rfl)
      refine ⟨e.field, (hfields _).mp hfirst.1, haddr.1, haddr.2.1, ?_, ?_⟩
      · rw [Option.isSome_iff_ne_none, ne_eq, ← Option.isNone_iff_eq_none]
        exact hsize
      · intro g hg hbefore hsame
        have hother := hfirst.2.2 g ((hfields g).mpr hg) hbefore
        rw [hsame, hfirst.2.1] at hother
        cases hother
  · rintro ⟨g, hg, hgi, hgs, hsize, hbefore⟩
    have hsame : g = f := by
      have hg' := (fieldAt_eq_some hsorted).mpr ⟨(hfields g).mpr hg, hgi, hgs⟩
      rw [hf] at hg'
      exact (Option.some.inj hg').symm
    subst hsame
    have hfirst := (hfind g).mpr ⟨hmem, beq_self_eq_true _, fun k hk hbk =>
      beq_eq_false_iff_ne.mpr (hbefore k ((hfields k).mp hk) hbk)⟩
    obtain ⟨e, he, rfl⟩ := Option.map_eq_some_iff.mp hfirst
    have hflat := List.mem_of_find?_eq_some he
    have hmap : e.var.pdoMappable = true := by
      refine pdoMappable_of_marked hsorted hflat ?_
      have hei : e.index = (v >>> 16).toUInt16 := hi
      have hes : e.subindex = (v >>> 8).toUInt8 := hs
      rw [hei, hes]
      exact hmarked
    have hsize' : e.var.typeName.size.isNone = false := by
      rw [Option.isNone_eq_false_iff]
      exact hsize
    rw [he]
    dsimp only
    rw [hmap, hsize']
    exact congrArg Except.ok (ResolvedMapping.mk.injEq .. ▸ ⟨hi, hs, rfl⟩)

def resolvedEntry (sections : List Section) (entries : List OdEntry) (mapIdx : UInt16) (sub : UInt8) :
    Option ResolvedMapping :=
  (importedMapping sections entries mapIdx sub).bind fun m => (resolveField (flatten entries) m).toOption

theorem mappingFor_padding {v : UInt32} (hpad : (ResolvedMapping.ofRaw v).isPadding = true) :
    mappingFor entries v = some ⟨"__dummy_mapping".toList, some v.toUInt8, some v⟩ := if_pos hpad

theorem mappingFor_named {v : UInt32} (hpad : (ResolvedMapping.ofRaw v).isPadding = false) :
    mappingFor entries v = ((fieldAt entries (.ofRaw v)).map (·.fieldName)).map fun name =>
      ⟨name, some v.toUInt8, none⟩ := by
  rw [← fieldName_eq]
  exact if_neg fun hdummy => Bool.false_ne_true (hpad.symm.trans hdummy)

theorem resolveField_padding {mapIdx : UInt16} {sub : UInt8} {m : PdoMappingDef}
    (h : importedMapping sections entries mapIdx sub = some m)
    (hpad : (declaredEntry sections mapIdx sub).isPadding = true) :
    m.rawMapping.isSome = true ∧
      resolveField (flatten entries) m = .ok (declaredEntry sections mapIdx sub) := by
  obtain ⟨-, -, hmapping⟩ := canonical_of_imported h
  rw [mappingFor_padding hpad] at hmapping
  cases hmapping
  exact ⟨rfl, rfl⟩

theorem resolveField_named (hsorted : (fieldsOf entries).Pairwise Field.Before)
    (hfields : ∀ f, f ∈ fieldsOf entries ↔ IsField lang capacityOverrides sections f) {p : PdoDef}
    (hmarked : PdoMarked sections entries entries p) {sub : UInt8}
    (hsub : sub ∈ descriptorSubs sections p.mapIdx) {m : PdoMappingDef}
    (h : importedMapping sections entries p.mapIdx sub = some m)
    (hpad : (declaredEntry sections p.mapIdx sub).isPadding = false) :
    m.rawMapping = none ∧
      (fieldAt entries (declaredEntry sections p.mapIdx sub)).map (·.fieldName) = some m.fieldName ∧
      (resolveField (flatten entries) m = .ok (declaredEntry sections p.mapIdx sub) ↔
        Reached lang capacityOverrides sections (declaredEntry sections p.mapIdx sub)) := by
  have hmark := hmarked sub hsub _ rfl m h
  obtain ⟨-, -, hmapping⟩ := canonical_of_imported h
  rw [mappingFor_named hpad] at hmapping
  obtain ⟨name, hname, rfl⟩ := Option.map_eq_some_iff.mp hmapping
  exact ⟨rfl, hname, resolveField_iff hsorted hfields hname (hmark rfl)⟩

/-- A declared entry is resolved to its own address when it is found and reached. -/
theorem resolvedEntry_iff (hsorted : (fieldsOf entries).Pairwise Field.Before)
    (hfields : ∀ f, f ∈ fieldsOf entries ↔ IsField lang capacityOverrides sections f) {p : PdoDef}
    (hmarked : PdoMarked sections entries entries p) {sub : UInt8}
    (hsub : sub ∈ descriptorSubs sections p.mapIdx)
    (hpad : (declaredEntry sections p.mapIdx sub).isPadding = false) :
    resolvedEntry sections entries p.mapIdx sub = some (declaredEntry sections p.mapIdx sub) ↔
      Canonical sections p.mapIdx 0 ∧ Canonical sections p.mapIdx sub ∧
        Reached lang capacityOverrides sections (declaredEntry sections p.mapIdx sub) := by
  unfold resolvedEntry
  constructor
  · intro h
    obtain ⟨m, hm, hres⟩ := Option.bind_eq_some_iff.mp h
    obtain ⟨h0, hc, -⟩ := canonical_of_imported hm
    exact ⟨h0, hc, (resolveField_named hsorted hfields hmarked hsub hm hpad).2.2.mp
      (toOption_eq_some.mp hres)⟩
  · rintro ⟨h0, hc, hreached⟩
    obtain ⟨f, hf, hi, hs, -⟩ := id hreached
    have hat := (fieldAt_eq_some hsorted).mpr ⟨(hfields f).mpr hf, hi, hs⟩
    have hsome : (importedMapping sections entries p.mapIdx sub).isSome = true := by
      rw [importedMapping_of_canonical h0 hc, mappingFor_named hpad, Option.isSome_map, Option.isSome_map]
      exact Option.isSome_of_eq_some hat
    obtain ⟨m, hm⟩ := Option.isSome_iff_exists.mp hsome
    rw [hm]
    exact toOption_eq_some.mpr ((resolveField_named hsorted hfields hmarked hsub hm hpad).2.2.mpr hreached)

theorem resolvedEntry_padding {mapIdx : UInt16} {sub : UInt8}
    (hpad : (declaredEntry sections mapIdx sub).isPadding = true) :
    resolvedEntry sections entries mapIdx sub =
      if entryFound sections mapIdx sub then some (declaredEntry sections mapIdx sub) else none := by
  unfold resolvedEntry
  by_cases hfound : entryFound sections mapIdx sub = true
  · have hboth := Bool.and_eq_true_iff.mp hfound
    have hm : importedMapping sections entries mapIdx sub =
        some ⟨"__dummy_mapping".toList, some (UInt32.ofNat (descriptor sections mapIdx sub)).toUInt8,
          some (UInt32.ofNat (descriptor sections mapIdx sub))⟩ := by
      rw [importedMapping_of_canonical hboth.1 hboth.2, mappingFor_padding hpad]
    rw [hm, if_pos hfound]
    exact toOption_eq_some.mpr (resolveField_padding hm hpad).2
  · have hm : importedMapping sections entries mapIdx sub = none := if_neg hfound
    rw [hm, if_neg hfound]
    rfl

theorem resolveFields_found (hsorted : (fieldsOf entries).Pairwise Field.Before)
    (hfields : ∀ f, f ∈ fieldsOf entries ↔ IsField lang capacityOverrides sections f) {p : PdoDef}
    (hmarked : PdoMarked sections entries entries p)
    (hmappings : p.mappings =
      (descriptorSubs sections p.mapIdx).filterMap (importedMapping sections entries p.mapIdx))
    (hreached : ∀ sub ∈ namedSubs sections p.mapIdx, Canonical sections p.mapIdx 0 ∧
      Canonical sections p.mapIdx sub ∧
      Reached lang capacityOverrides sections (declaredEntry sections p.mapIdx sub)) :
    resolveFields (flatten entries) p.mappings =
      .ok (((descriptorSubs sections p.mapIdx).filter (entryFound sections p.mapIdx)).map
        (declaredEntry sections p.mapIdx)) := by
  have hentry : ∀ sub ∈ descriptorSubs sections p.mapIdx,
      resolvedEntry sections entries p.mapIdx sub =
        if entryFound sections p.mapIdx sub then some (declaredEntry sections p.mapIdx sub) else none := by
    intro sub hsub
    cases hpad : (declaredEntry sections p.mapIdx sub).isPadding with
    | true => exact resolvedEntry_padding hpad
    | false =>
      have hgood := hreached sub (List.mem_filter.mpr ⟨hsub, by simp [hpad]⟩)
      have hfound : entryFound sections p.mapIdx sub = true :=
        Bool.and_eq_true_iff.mpr ⟨hgood.1, hgood.2.1⟩
      rw [(resolvedEntry_iff hsorted hfields hmarked hsub hpad).mpr hgood, if_pos hfound]
  rw [resolveFields_ok]
  constructor
  · intro m hm
    rw [hmappings] at hm
    obtain ⟨sub, hsub, hm⟩ := List.mem_filterMap.mp hm
    have hfound : entryFound sections p.mapIdx sub = true := by
      obtain ⟨h0, hc, -⟩ := canonical_of_imported hm
      exact Bool.and_eq_true_iff.mpr ⟨h0, hc⟩
    have heq := hentry sub hsub
    rw [if_pos hfound, resolvedEntry, hm] at heq
    exact Option.isSome_of_eq_some heq
  · rw [hmappings, List.filterMap_filterMap, ← List.filterMap_eq_map, List.filterMap_filter]
    refine List.filterMap_congr fun sub hsub => ?_
    exact (hentry sub hsub).symm

theorem filter_resolved {p : PdoDef}
    (hmappings : p.mappings =
      (descriptorSubs sections p.mapIdx).filterMap (importedMapping sections entries p.mapIdx))
    {rs : List ResolvedMapping} (hrs : resolveFields (flatten entries) p.mappings = .ok rs) :
    rs.filter (fun r => !r.isPadding) = (namedSubs sections p.mapIdx).filterMap fun sub =>
      (resolvedEntry sections entries p.mapIdx sub).filter fun r => !r.isPadding := by
  rw [(resolveFields_ok.mp hrs).2, hmappings, List.filterMap_filterMap, List.filter_filterMap, namedSubs,
    List.filterMap_filter]
  refine List.filterMap_congr fun sub _ => ?_
  change (resolvedEntry sections entries p.mapIdx sub).filter _ = _
  cases hpad : (declaredEntry sections p.mapIdx sub).isPadding with
  | false => rfl
  | true =>
    rw [resolvedEntry_padding hpad]
    split_ifs <;> simp_all

theorem filter_mappings (hsorted : (fieldsOf entries).Pairwise Field.Before)
    (hfields : ∀ f, f ∈ fieldsOf entries ↔ IsField lang capacityOverrides sections f) {p : PdoDef}
    (hmarked : PdoMarked sections entries entries p)
    (hmappings : p.mappings =
      (descriptorSubs sections p.mapIdx).filterMap (importedMapping sections entries p.mapIdx)) :
    p.mappings.filter (·.rawMapping.isNone) =
      (namedSubs sections p.mapIdx).filterMap (importedMapping sections entries p.mapIdx) := by
  rw [hmappings, List.filter_filterMap, namedSubs, List.filterMap_filter]
  refine List.filterMap_congr fun sub hsub => ?_
  cases hm : importedMapping sections entries p.mapIdx sub with
  | none => simp
  | some m =>
    cases hpad : (declaredEntry sections p.mapIdx sub).isPadding with
    | false =>
      have hraw := (resolveField_named hsorted hfields hmarked hsub hm hpad).1
      simp [hraw]
    | true =>
      have hraw := (resolveField_padding hm hpad).1
      simp [Option.filter, Option.isNone_eq_false_iff.mpr hraw]

theorem findVarAccess_reached (hsorted : (fieldsOf entries).Pairwise Field.Before)
    (hfields : ∀ f, f ∈ fieldsOf entries ↔ IsField lang capacityOverrides sections f)
    {m : ResolvedMapping} {name : List Char} (hname : (fieldAt entries m).map (·.fieldName) = some name)
    (hreached : Reached lang capacityOverrides sections m) :
    findVarAccess entries name = (fieldAt entries m).map (·.access) := by
  obtain ⟨f, hf, hi, hs, -, hbefore⟩ := hreached
  have hat := (fieldAt_eq_some hsorted).mpr ⟨(hfields f).mpr hf, hi, hs⟩
  rw [hat] at hname ⊢
  cases hname
  have hfind : (fieldsOf entries).find? (·.fieldName == f.fieldName) = some f := by
    refine (find_sorted_iff hsorted).mpr ⟨(hfields f).mpr hf, beq_self_eq_true _, fun g hg hbg => ?_⟩
    exact beq_eq_false_iff_ne.mpr (hbefore g ((hfields g).mp hg) hbg)
  rw [findVarAccess_eq, hfind]

theorem resolvesRight_iff (hsorted : (fieldsOf entries).Pairwise Field.Before)
    (hfields : ∀ f, f ∈ fieldsOf entries ↔ IsField lang capacityOverrides sections f) {p : PdoDef}
    (hmarked : PdoMarked sections entries entries p)
    (hmappings : p.mappings =
      (descriptorSubs sections p.mapIdx).filterMap (importedMapping sections entries p.mapIdx)) :
    ResolvesRight sections entries p ↔ NamesReach lang capacityOverrides sections p.mapIdx := by
  constructor
  · rintro ⟨⟨rs, hrs, heq⟩, -⟩
    unfold resolvePdoMappings at hrs
    cases hfields' : resolveFields (flatten entries) p.mappings with
    | error e =>
      rw [hfields'] at hrs
      cases hrs
    | ok rs' =>
      rw [hfields'] at hrs
      dsimp only at hrs
      split_ifs at hrs with hbits
      cases hrs
      have hreached : ∀ sub ∈ namedSubs sections p.mapIdx, Canonical sections p.mapIdx 0 ∧
          Canonical sections p.mapIdx sub ∧
          Reached lang capacityOverrides sections (declaredEntry sections p.mapIdx sub) := by
        intro sub hsub
        rw [filter_resolved hmappings hfields', filterMap_eq_map_iff] at heq
        obtain ⟨hmem, hpad⟩ := List.mem_filter.mp hsub
        rw [← resolvedEntry_iff hsorted hfields hmarked hmem (by simpa using hpad)]
        exact (Option.filter_eq_some_iff.mp (heq sub hsub)).1
      refine ⟨hreached, ?_⟩
      rw [resolveFields_found hsorted hfields hmarked hmappings hreached] at hfields'
      cases hfields'
      rw [List.map_map] at hbits
      exact Nat.not_lt.mp hbits
  · rintro ⟨hreached, hbits⟩
    have hrs := resolveFields_found hsorted hfields hmarked hmappings hreached
    have hresolve : resolvePdoMappings (flatten entries) p =
        .ok (((descriptorSubs sections p.mapIdx).filter (entryFound sections p.mapIdx)).map
          (declaredEntry sections p.mapIdx)) := by
      unfold resolvePdoMappings
      rw [hrs]
      dsimp only
      rw [List.map_map]
      exact if_neg (Nat.not_lt.mpr hbits)
    refine ⟨⟨_, hresolve, ?_⟩, ?_⟩
    · rw [filter_resolved hmappings hrs, filterMap_eq_map_iff]
      intro sub hsub
      obtain ⟨hmem, hpad⟩ := List.mem_filter.mp hsub
      have hnamed := (resolvedEntry_iff hsorted hfields hmarked hmem (by simpa using hpad)).mpr
        (hreached sub hsub)
      exact Option.filter_eq_some_iff.mpr ⟨hnamed, hpad⟩
    · rw [filter_mappings hsorted hfields hmarked hmappings, filterMap_map_eq_iff]
      · intro sub hsub
        obtain ⟨hmem, hpad⟩ := List.mem_filter.mp hsub
        have hnamed := (resolvedEntry_iff hsorted hfields hmarked hmem (by simpa using hpad)).mpr
          (hreached sub hsub)
        obtain ⟨m, hm, -⟩ := Option.bind_eq_some_iff.mp hnamed
        exact Option.isSome_of_eq_some hm
      · intro sub hsub m hm
        obtain ⟨hmem, hpad⟩ := List.mem_filter.mp hsub
        have hname := (resolveField_named hsorted hfields hmarked hmem hm (by simpa using hpad)).2.1
        exact findVarAccess_reached hsorted hfields hname (hreached sub hsub).2.2

end Reaching

/-- Every object that a declared PDO maps is resolved, which takes that the PDO is imported. -/
def PdoResolves (sections : List Section) (entries : List OdEntry) (pdos : List PdoDef)
    (direction : Derive.PdoDirection) (n : ℕ) : Prop :=
  (namedSubs sections (direction.mapBase + UInt16.ofNat n) ≠ [] → ∃ p ∈ pdos, p.HasNumber direction n) ∧
    ∀ p ∈ pdos, p.HasNumber direction n → ResolvesRight sections entries p

/-- The PDO is found, if it maps an object, and its objects are reached. -/
def PdoReached (lang : Lang) (capacityOverrides : UInt16 → Option ℕ) (sections : List Section)
    (direction : Derive.PdoDirection) (n : ℕ) : Prop :=
  (namedSubs sections (direction.mapBase + UInt16.ofNat n) ≠ [] →
    CanonicalMain sections (direction.commBase + UInt16.ofNat n)) ∧
  (CanonicalMain sections (direction.commBase + UInt16.ofNat n) →
    NamesReach lang capacityOverrides sections (direction.mapBase + UInt16.ofNat n))

section Import

variable {lang : Lang} {capacityOverrides : UInt16 → Option ℕ} {content : List Char}
  {entries : List OdEntry} {pdos : List PdoDef}
  (h : parseEdsContent lang capacityOverrides content = .ok (entries, pdos))
include h

/-- The mappings of an imported PDO resolve to their objects exactly when every object is found
and is the first of its name, and the entries fit in a frame. -/
theorem imported_resolves_iff {p : PdoDef} (hp : p ∈ pdos) :
    ResolvesRight (parseSections content) entries p ↔
      NamesReach lang capacityOverrides (parseSections content) p.mapIdx := by
  obtain ⟨hnodup, entries₀, hentries, hpdos⟩ := parseEdsContent_ok h
  have hunique := objectSections_unique hnodup
  have hsame := importPdos_unmarked hpdos
  have hfieldsOf : fieldsOf entries = fieldsOf entries₀ := fieldsOf_unmarked hsame
  have himported := importedMapping_unmarked hsame (parseSections content) p.mapIdx
  refine resolvesRight_iff ?_ ?_ ?_ ?_
  · rw [hfieldsOf]
    exact fieldsOf_sorted hentries hunique
  · intro f
    rw [hfieldsOf]
    exact mem_fieldsOf hentries
  · intro sub hsub v hv m hm hraw
    rw [himported] at hm
    exact (importPdos_marks hnodup hpdos).2 p hp sub hsub v hv m hm hraw
  · rw [pdo_mappings_eq h hp hentries]
    exact List.filterMap_congr fun sub _ => (himported sub).symm

theorem pdoResolves_iff {direction : Derive.PdoDirection} {n : ℕ}
    (hpdo : DeclaresPdo (parseSections content) direction n) :
    PdoResolves (parseSections content) entries pdos direction n ↔
      PdoReached lang capacityOverrides (parseSections content) direction n := by
  unfold PdoResolves PdoReached
  rw [← pdo_imported_iff h hpdo.1]
  refine and_congr_right fun _ => ?_
  constructor
  · rintro hall ⟨p, hp, hnumber⟩
    rw [← hnumber.mapIdx_eq]
    exact (imported_resolves_iff h hp).mp (hall p hp hnumber)
  · intro hreach p hp hnumber
    rw [imported_resolves_iff h hp, hnumber.mapIdx_eq]
    exact hreach ⟨p, hp, hnumber⟩

end Import

/-- The mappings of the imported PDOs, and those of the PDOs of the text, resolve to their objects
exactly when every object is found and is the first of its name. -/
theorem names_resolve_iff {lang : Lang} {capacityOverrides : UInt16 → Option ℕ} {content : List Char}
    {entries : List OdEntry} {pdos : List PdoDef}
    (h : parseEdsContent lang capacityOverrides content = .ok (entries, pdos)) :
    (∀ p ∈ pdos, ResolvesRight (parseSections content) entries p ↔
      NamesReach lang capacityOverrides (parseSections content) p.mapIdx) ∧
    ∀ direction n, DeclaresPdo (parseSections content) direction n →
      (PdoResolves (parseSections content) entries pdos direction n ↔
        PdoReached lang capacityOverrides (parseSections content) direction n) :=
  ⟨fun _ hp => imported_resolves_iff h hp, fun _ _ hpdo => pdoResolves_iff h hpdo⟩

/-! ## Two objects of one name -/

/-- An unsigned and a signed byte, each in a transmit PDO of its own. -/
def twinEds (name : List Char) : List Char :=
  unlines (byteSection "[2000]".toList "Speed".toList ++
    ["[2001]".toList, "ParameterName=".toList ++ name, "DataType=2".toList, "[1800]".toList,
      "[1A00sub0]".toList, "DefaultValue=1".toList, "[1A00sub1]".toList,
      "DefaultValue=0x20000008".toList, "[1801]".toList, "[1A01sub0]".toList, "DefaultValue=1".toList,
      "[1A01sub1]".toList, "DefaultValue=0x20010008".toList])

def twinEntries (name : List Char) : List OdEntry :=
  [⟨0x2000, "speed".toList, .var ⟨.u8, none, some (.int 0), .ro, true⟩⟩,
    ⟨0x2001, name, .var ⟨.i8, none, some (.int 0), .ro, true⟩⟩]

def twinPdo (number : UInt16) (name : List Char) : PdoDef :=
  { mappedPdo [⟨name, some 8, none⟩] with number := number }

def twinPdos (name : List Char) : List PdoDef := [twinPdo 1 "speed".toList, twinPdo 2 name]

theorem names_resolve_distinct :
    parseEdsContent asciiLang (fun _ => none) (twinEds "Torque".toList) =
        .ok (twinEntries "torque".toList, twinPdos "torque".toList) ∧
      NamesReach asciiLang (fun _ => none) (parseSections (twinEds "Torque".toList))
        (twinPdo 2 "torque".toList).mapIdx := by
  have hok : parseEdsContent asciiLang (fun _ => none) (twinEds "Torque".toList) =
      .ok (twinEntries "torque".toList, twinPdos "torque".toList) := by
    rw [parseEdsContent_recorded]
    decide
  have hright : ResolvesRight (parseSections (twinEds "Torque".toList)) (twinEntries "torque".toList)
      (twinPdo 2 "torque".toList) :=
    ⟨⟨[⟨0x2001, 0, 8⟩], by decide⟩, by decide⟩
  exact ⟨hok, ((names_resolve_iff hok).1 _ (by simp [twinPdos])).mp hright⟩

/-- The names differ in case only: the PDO of the signed byte is resolved to the unsigned
byte. -/
theorem names_reach_other_object :
    parseEdsContent asciiLang (fun _ => none) (twinEds "speed".toList) =
        .ok (twinEntries "speed".toList, twinPdos "speed".toList) ∧
      namedSubs (parseSections (twinEds "speed".toList)) 0x1A01 = [1] ∧
      declaredEntry (parseSections (twinEds "speed".toList)) 0x1A01 1 = ⟨0x2001, 0, 8⟩ ∧
      resolvePdoMappings (flatten (twinEntries "speed".toList)) (twinPdo 2 "speed".toList) =
        .ok [⟨0x2000, 0, 8⟩] ∧
      ¬ResolvesRight (parseSections (twinEds "speed".toList)) (twinEntries "speed".toList)
        (twinPdo 2 "speed".toList) := by
  have hother : resolvePdoMappings (flatten (twinEntries "speed".toList)) (twinPdo 2 "speed".toList) =
      .ok [⟨0x2000, 0, 8⟩] := by
    decide
  have hsubs : namedSubs (parseSections (twinEds "speed".toList)) 0x1A01 = [1] := by decide
  have hentry : declaredEntry (parseSections (twinEds "speed".toList)) 0x1A01 1 = ⟨0x2001, 0, 8⟩ := by
    decide
  refine ⟨by rw [parseEdsContent_recorded]; decide, hsubs, hentry, hother, ?_⟩
  rintro ⟨⟨rs, hrs, heq⟩, -⟩
  have hmapIdx : (twinPdo 2 "speed".toList).mapIdx = 0x1A01 := by decide
  rw [hother] at hrs
  cases hrs
  rw [hmapIdx, hsubs, List.map_singleton, hentry] at heq
  revert heq
  decide

end Canopen.Eds
