import Canopen.Eds.Export

/-!
# Reading a written file

A written section is read back as it is when its names and values are single trimmed lines.
A value with line ends may bring along the headers of other sections.
-/

namespace Canopen.Eds

open Text

/-! ## Lines -/

def headerName (line : List Char) : Option (List Char) :=
  let line := trim line
  if line.isEmpty || line.head? == some ';' then none
  else if line.head? == some '[' && line.getLast? == some ']' then some (line.drop 1).dropLast
  else none

/-- The property in a line that begins no section. -/
def lineProp (line : List Char) : Option (List Char × List Char) :=
  let line := trim line
  if line.isEmpty || line.head? == some ';' then none
  else (splitOnce ['='] line).map fun (key, value) => (trim key, trim value)

theorem parseLine_header {line name : List Char} (h : headerName line = some name) (s : ParseState) :
    s.parseLine line = ⟨name, if s.currentSection.isEmpty then s.sectionProps else [], s.flush⟩ := by
  unfold headerName at h
  unfold ParseState.parseLine
  dsimp only at h ⊢
  split_ifs at h with hskip hheader
  cases h
  rw [if_neg hskip, if_pos hheader]

theorem parseLine_prop {line : List Char} (h : headerName line = none) (s : ParseState) :
    s.parseLine line = { s with sectionProps := s.sectionProps ++ (lineProp line).toList } := by
  unfold headerName at h
  unfold ParseState.parseLine lineProp
  dsimp only at h ⊢
  split_ifs at h with hskip hheader
  · rw [if_pos hskip, if_pos hskip]
    simp
  · rw [if_neg hskip, if_neg hheader, if_neg hskip]
    cases splitOnce ['='] (trim line) with
    | none => simp
    | some parts => rfl

theorem parseLine_blank (s : ParseState) : s.parseLine [] = s := by
  have hheader : headerName [] = none := by decide
  have hline : lineProp [] = none := by decide
  rw [parseLine_prop hheader, hline]
  simp

/-! ## Names -/

theorem names_flush (s : ParseState) (ls : List (List Char)) :
    ((ls.foldl ParseState.parseLine s).flush).map (·.name) =
      s.flush.map (·.name) ++ (ls.filterMap headerName).filter fun name => !name.isEmpty := by
  induction ls generalizing s with
  | nil => simp
  | cons line ls ih =>
    rw [List.foldl_cons, ih]
    cases hline : headerName line with
    | none =>
      rw [parseLine_prop hline, List.filterMap_cons_none hline]
      unfold ParseState.flush
      dsimp only
      split_ifs <;> simp
    | some name =>
      rw [parseLine_header hline, List.filterMap_cons_some hline]
      cases name with
      | nil => simp [ParseState.flush]
      | cons c name => simp [ParseState.flush]

def lineAddress (line : List Char) : Option Address := (headerName line).bind parseSectionIndex

/-- The addresses of a file are those of its header lines. -/
theorem addresses_eq (content : List Char) :
    (parseSections content).filterMap Section.address = (lines content).filterMap lineAddress := by
  have hname : ∀ ss : List Section,
      ss.filterMap Section.address = (ss.map (·.name)).filterMap parseSectionIndex := by
    intro ss
    rw [List.filterMap_map]
    rfl
  have hempty : parseSectionIndex [] = none := by decide
  rw [hname, parseSections, names_flush, List.filterMap_append, List.filterMap_filter]
  change [] ++ _ = _
  rw [List.nil_append, List.filterMap_filterMap]
  apply List.filterMap_congr
  intro line _
  unfold lineAddress
  cases headerName line with
  | none => rfl
  | some name =>
    cases name with
    | nil => simp [hempty]
    | cons c name => simp

/-! ## Keys and values -/

/-- A key is made of letters, digits and underscores. -/
def isKey (key : List Char) : Bool := !key.isEmpty && key.all fun c => (charValue c).isSome || c == '_'

theorem isKey_char {key : List Char} (h : isKey key = true) {c : Char} (hc : c ∈ key) :
    isWhite c = false ∧ c ≠ '\n' ∧ c ≠ '=' ∧ c ≠ '[' ∧ c ≠ ';' := by
  have hchar := List.all_eq_true.mp (Bool.and_eq_true_iff.mp h).2 c hc
  have hwhite : isWhite c = false := by
    rcases Bool.or_eq_true_iff.mp hchar with hvalue | hunder
    · exact isWhite_of_charValue hvalue
    · rw [beq_iff_eq.mp hunder]
      decide
  refine ⟨hwhite, ?_, ?_, ?_, ?_⟩
  all_goals
    rintro rfl
    revert hchar
    decide

/-- The addresses of the headers that a value has behind its first line. -/
def embedded (value : List Char) : List Address := ((lines value).drop 1).filterMap lineAddress

theorem headerName_header (name : List Char) : headerName ('[' :: name ++ [']']) = some name := by
  have htrim : trim ('[' :: name ++ [']']) = '[' :: name ++ [']'] := by
    apply trimMatches_of_ends
    · rintro c ⟨⟩
      decide
    · rw [List.getLast?_append]
      rintro c ⟨⟩
      decide
  have hlast : ('[' :: name ++ [']']).getLast? = some ']' := List.getLast?_concat ..
  unfold headerName
  dsimp only
  rw [htrim, hlast]
  simp

theorem lineAddresses_header {name : List Char} (h : '\n' ∉ name) :
    (lines ('[' :: name ++ [']'])).filterMap lineAddress = (parseSectionIndex name).toList := by
  have hline : '\n' ∉ '[' :: name ++ [']'] := by simpa using h
  rw [lines_of_not_mem hline, List.filterMap_cons, List.filterMap_nil, lineAddress, headerName_header,
    Option.bind_some]
  cases parseSectionIndex name <;> rfl

/-- A line that starts with a key begins no section. -/
theorem headerName_of_key {key : List Char} (h : isKey key = true) (rest : List Char) :
    headerName (key ++ rest) = none := by
  cases key with
  | nil => cases h
  | cons c key =>
    obtain ⟨hwhite, -, -, hopen, -⟩ := isKey_char h List.mem_cons_self
    have hhead : (trim (c :: key ++ rest)).head? = some c := by
      have hdrop : (c :: (key ++ rest)).dropWhile isWhite = c :: (key ++ rest) :=
        List.dropWhile_cons_of_neg (by rw [hwhite]; exact Bool.false_ne_true)
      rw [trim, trimMatches, List.cons_append, hdrop, List.head?_reverse, List.reverse_cons,
        List.dropWhile_append]
      split_ifs with hall
      · rw [List.dropWhile_cons_of_neg (by rw [hwhite]; exact Bool.false_ne_true)]
        rfl
      · simp
    unfold headerName
    dsimp only
    rw [hhead]
    simp [hopen]

theorem lineAddresses_prop {key : List Char} (h : isKey key = true) (value : List Char) :
    (lines (key ++ '=' :: value)).filterMap lineAddress = embedded value := by
  have hkey : '\n' ∉ key ++ ['='] := by
    intro hmem
    rcases List.mem_append.mp hmem with hmem | hmem
    · exact (isKey_char h hmem).2.1 rfl
    · revert hmem
      decide
  obtain ⟨first, rest, hvalue, hline⟩ := lines_front hkey value
  have hnone : lineAddress (key ++ (['='] ++ first)) = none := by
    rw [lineAddress, headerName_of_key h]
    rfl
  rw [List.append_assoc] at hline
  change lines (key ++ '=' :: value) = _ at hline
  rw [hline, embedded, hvalue, List.append_assoc, List.filterMap_cons_none hnone]
  rfl

/-! ## Files -/

/-- The keys of a section are keys, and its name is a line. -/
structure Section.Keyed (s : Section) : Prop where
  name : '\n' ∉ s.name
  keys : ∀ p ∈ s.props, isKey p.1 = true

def textOf (sections : List Section) : List Char := unlines (sections.flatMap Section.text)

/-- The addresses of a written file: those of its sections, and those its values bring along. -/
theorem addresses_written {sections : List Section} (h : ∀ s ∈ sections, s.Keyed) :
    (parseSections (textOf sections)).filterMap Section.address =
      sections.flatMap fun s => s.address.toList ++ s.props.flatMap fun p => embedded p.2 := by
  have hprops : ∀ s : Section, s.Keyed →
      ((s.props.map fun p => p.1 ++ '=' :: p.2).flatMap lines).filterMap lineAddress =
        s.props.flatMap fun p => embedded p.2 := by
    intro s hs
    rw [List.flatMap_map, List.filterMap_flatMap]
    exact List.flatMap_congr fun p hp => lineAddresses_prop (hs.keys p hp) p.2
  have hsection : ∀ s ∈ sections, (s.text.flatMap lines).filterMap lineAddress =
      s.address.toList ++ s.props.flatMap fun p => embedded p.2 := by
    intro s hs
    have hblank : (lines []).filterMap lineAddress = [] := by decide
    rw [Section.text, List.flatMap_append, List.flatMap_cons, List.filterMap_append, List.filterMap_append,
      lineAddresses_header (h s hs).name, hprops s (h s hs)]
    simp only [List.flatMap_cons, List.flatMap_nil, List.append_nil, hblank]
    rfl
  have hend : ([[]] : List (List Char)).filterMap lineAddress = [] := by decide
  rw [addresses_eq, textOf, lines_unlines, List.filterMap_append, hend, List.append_nil,
    List.flatMap_assoc, List.filterMap_flatMap]
  exact List.flatMap_congr hsection

/-- The names and values of a section are trimmed lines. -/
structure Section.Clean (s : Section) : Prop extends s.Keyed where
  named : s.name ≠ []
  values : ∀ p ∈ s.props, '\n' ∉ p.2 ∧ trim p.2 = p.2

theorem lineProp_written {key value : List Char} (h : isKey key = true) (hvalue : trim value = value) :
    lineProp (key ++ '=' :: value) = some (key, value) := by
  have hkey : trim key = key := trim_of_forall fun c hc => (isKey_char h hc).1
  have hsplit : splitOnce ['='] (key ++ '=' :: value) = some (key, value) := by
    have hnot : '=' ∉ key := fun hmem => (isKey_char h hmem).2.2.1 rfl
    have hfound := splitOnce_append hnot [] value
    rwa [List.append_assoc] at hfound
  cases key with
  | nil => cases h
  | cons c key =>
    obtain ⟨hwhite, -, -, -, hsemi⟩ := isKey_char h List.mem_cons_self
    have htrim : trim (c :: key ++ '=' :: value) = c :: key ++ '=' :: value := by
      apply trimMatches_of_ends
      · rintro d ⟨⟩
        exact hwhite
      · rw [List.getLast?_append]
        cases hlast : value.getLast? with
        | none =>
          have hnil : value = [] := List.getLast?_eq_none_iff.mp hlast
          rw [hnil]
          rintro d ⟨⟩
          decide
        | some d =>
          have hend := (@ends_trimMatches isWhite value).2 d
          rw [show trimMatches isWhite value = value from hvalue] at hend
          rw [List.getLast?_cons, hlast]
          rintro e ⟨⟩
          exact hend hlast
    unfold lineProp
    dsimp only
    rw [htrim, hsplit]
    simp [hsemi, hkey, hvalue]

theorem foldl_props {props : Props} (hkeys : ∀ p ∈ props, isKey p.1 = true)
    (hvalues : ∀ p ∈ props, trim p.2 = p.2) (s : ParseState) :
    (props.map fun p => p.1 ++ '=' :: p.2).foldl ParseState.parseLine s =
      { s with sectionProps := s.sectionProps ++ props } := by
  induction props generalizing s with
  | nil => simp
  | cons p props ih =>
    have hkey := hkeys p List.mem_cons_self
    have hprop := lineProp_written hkey (hvalues p List.mem_cons_self)
    have hheader := headerName_of_key hkey ('=' :: p.2)
    rw [List.map_cons, List.foldl_cons, parseLine_prop hheader, hprop,
      ih (fun q hq => hkeys q (List.mem_cons_of_mem p hq)) fun q hq => hvalues q (List.mem_cons_of_mem p hq)]
    simp

theorem foldl_section {s : Section} (h : s.Clean) (st : ParseState)
    (hst : st.currentSection.isEmpty = true → st.sectionProps = []) :
    s.text.foldl ParseState.parseLine st = ⟨s.name, s.props, st.flush⟩ := by
  have hprops : (if st.currentSection.isEmpty then st.sectionProps else []) = [] := by
    split_ifs with hempty
    · exact hst hempty
    · rfl
  rw [Section.text, List.foldl_append, List.foldl_cons, List.foldl_nil, parseLine_blank, List.foldl_cons,
    parseLine_header (headerName_header s.name), hprops, foldl_props h.keys fun p hp => (h.values p hp).2,
    List.nil_append]

/-- A file of clean sections is read back. -/
theorem parseSections_written {sections : List Section} (h : ∀ s ∈ sections, s.Clean) :
    parseSections (textOf sections) = sections := by
  have hlines : ∀ s ∈ sections, s.text.flatMap lines = s.text := by
    intro s hs
    have hone : ∀ l ∈ s.text, lines l = [l] := by
      intro l hl
      apply lines_of_not_mem
      rcases List.mem_append.mp hl with hl | hl
      · rcases List.mem_cons.mp hl with rfl | hl
        · simpa using (h s hs).name
        · obtain ⟨p, hp, rfl⟩ := List.mem_map.mp hl
          intro hmem
          rcases List.mem_append.mp hmem with hmem | hmem
          · exact (isKey_char ((h s hs).keys p hp) hmem).2.1 rfl
          · rcases List.mem_cons.mp hmem with heq | hmem
            · revert heq
              decide
            · exact ((h s hs).values p hp).1 hmem
      · rw [List.mem_singleton.mp hl]
        exact List.not_mem_nil
    calc
      s.text.flatMap lines = s.text.flatMap fun l => [l] := List.flatMap_congr hone
      _ = s.text := List.flatMap_singleton' s.text
  have hfold : ∀ (st : ParseState), (st.currentSection.isEmpty = true → st.sectionProps = []) →
      ((sections.flatMap Section.text).foldl ParseState.parseLine st).flush = st.flush ++ sections := by
    clear hlines
    induction sections with
    | nil => simp
    | cons s sections ih =>
      intro st hst
      have hs := h s List.mem_cons_self
      have hname : s.name.isEmpty = false := by
        rw [List.isEmpty_eq_false_iff]
        exact hs.named
      rw [List.flatMap_cons, List.foldl_append, foldl_section hs st hst,
        ih (fun t ht => h t (List.mem_cons_of_mem s ht))]
      · simp [ParseState.flush, hname]
      · intro hempty
        rw [hname] at hempty
        cases hempty
  have htext : lines (textOf sections) = sections.flatMap Section.text ++ [[]] := by
    rw [textOf, lines_unlines, List.flatMap_assoc]
    congr 1
    exact List.flatMap_congr hlines
  rw [parseSections, htext, List.foldl_append, List.foldl_cons, List.foldl_nil, parseLine_blank]
  exact hfold ParseState.init fun _ => rfl

end Canopen.Eds
