import Canopen.Eds.Written

/-!
# Headers and properties

Which section a property line belongs to: the one whose header is the nearest above it. The
loop that the DCF reader and the EDS importer share (`dcf.rs`, `eds_parser.rs`) carries section
and properties along from line to line.
-/

namespace Canopen.Eds

open Text

/-- The loop of `dcf.rs`, that of the importer line by line. -/
def parseIniSections (content : List Char) : List Section :=
  ((lines content).foldl ParseState.parseLine ParseState.init).flush

/-! ## Attribution -/

/-- The properties before the next header. -/
def propsBelow : List (List Char) → Props
  | [] => []
  | line :: rest =>
    match headerName line with
    | some _ => []
    | none => (lineProp line).toList ++ propsBelow rest

/-- One section for each header with a name, with the properties below it. -/
def headedSections : List (List Char) → List Section
  | [] => []
  | line :: rest =>
    match headerName line with
    | some name => (if name.isEmpty then [] else [⟨name, propsBelow rest⟩]) ++ headedSections rest
    | none => headedSections rest

/-- The name in the nearest header of some lines, or else `name`. -/
def nearestName (name : List Char) (above : List (List Char)) : List Char :=
  above.foldl (fun name line => (headerName line).getD name) name

def isPropLine (line : List Char) : Prop := headerName line = none ∧ lineProp line ≠ none

def isNamedHeader (line : List Char) : Prop := ∃ name, headerName line = some name ∧ name ≠ []

/-- Below a header `name`, a property without a named header has such a header below it. -/
def Strays (name : List Char) (ls : List (List Char)) : Prop :=
  ∃ above line below, ls = above ++ line :: below ∧ isPropLine line ∧ nearestName name above = [] ∧
    ∃ header ∈ below, isNamedHeader header

theorem strays_cons (name line : List Char) (ls : List (List Char)) :
    Strays name (line :: ls) ↔ (name = [] ∧ isPropLine line ∧ ∃ header ∈ ls, isNamedHeader header) ∨
      Strays ((headerName line).getD name) ls := by
  constructor
  · rintro ⟨above, prop, below, hsplit, hprop, hname, hheader⟩
    cases above with
    | nil =>
      cases hsplit
      exact .inl ⟨hname, hprop, hheader⟩
    | cons first above =>
      cases hsplit
      exact .inr ⟨above, prop, below, rfl, hprop, hname, hheader⟩
  · rintro (⟨hname, hprop, hheader⟩ | ⟨above, prop, below, rfl, hprop, hname, hheader⟩)
    · exact ⟨[], line, ls, rfl, hprop, hname, hheader⟩
    · exact ⟨line :: above, prop, below, rfl, hprop, hname, hheader⟩

/-! ## The loop -/

/-- The sections that the loop completes from some lines on, when `strays` holds the properties
collected below no name, or nothing below a name. -/
def loopSections (strays : Option Props) : List (List Char) → List Section
  | [] => []
  | line :: rest =>
    match headerName line with
    | some name =>
      if name.isEmpty then loopSections (some (strays.getD [])) rest
      else ⟨name, strays.getD [] ++ propsBelow rest⟩ :: loopSections none rest
    | none => loopSections (strays.map (· ++ (lineProp line).toList)) rest

theorem flush_foldl (s : ParseState) (ls : List (List Char)) :
    (ls.foldl ParseState.parseLine s).flush =
      if s.currentSection.isEmpty then s.sections ++ loopSections (some s.sectionProps) ls
      else s.sections ++ ⟨s.currentSection, s.sectionProps ++ propsBelow ls⟩ :: loopSections none ls := by
  induction ls generalizing s with
  | nil =>
    rw [List.foldl_nil, ParseState.flush]
    split_ifs <;> simp [loopSections, propsBelow]
  | cons line ls ih =>
    rw [List.foldl_cons, ih]
    cases hline : headerName line with
    | none =>
      rw [parseLine_prop hline]
      split_ifs <;> simp [loopSections, propsBelow, hline]
    | some name =>
      rw [parseLine_header hline, ParseState.flush]
      dsimp only
      by_cases hname : name.isEmpty
      · split_ifs <;> simp [loopSections, propsBelow, hline, hname]
      · split_ifs <;> simp [loopSections, propsBelow, hline, hname]

/-- Collected properties stay with no section when no named header follows. -/
theorem loopSections_eq_iff (strays : Option Props) (name : List Char) (ls : List (List Char))
    (hname : strays = none ↔ name ≠ []) :
    loopSections strays ls = headedSections ls ↔
      ¬((strays.getD [] ≠ [] ∧ ∃ header ∈ ls, isNamedHeader header) ∨ Strays name ls) := by
  induction ls generalizing strays name with
  | nil =>
    refine iff_of_true rfl ?_
    rintro (⟨-, header, hmem, -⟩ | ⟨above, line, below, hsplit, -⟩)
    · cases hmem
    · exact absurd hsplit.symm (by simp)
  | cons line ls ih =>
    rw [strays_cons]
    cases hline : headerName line with
    | none =>
      have hnot : ¬isNamedHeader line := by
        rintro ⟨n, hn, -⟩
        cases hline.symm.trans hn
      have hprop : isPropLine line ↔ (lineProp line).toList ≠ [] := by
        rw [isPropLine, hline, and_iff_right rfl, ne_eq, ne_eq, Option.toList_eq_nil_iff]
      rw [loopSections, headedSections, hline]
      dsimp only
      rw [ih _ name (by rw [← hname, Option.map_eq_none_iff]), Option.getD_none]
      simp only [List.exists_mem_cons_iff, hnot, false_or, hprop]
      cases strays with
      | none =>
        have hnamed : name ≠ [] := hname.mp rfl
        simp [hnamed]
      | some props =>
        have hunnamed : name = [] := by
          by_contra h
          cases hname.mpr h
        simp only [Option.map_some, Option.getD_some, hunnamed, true_and, ne_eq, List.append_eq_nil_iff]
        rw [not_and_or, or_and_right, or_assoc]
    | some header =>
      have hprop : ¬isPropLine line := by
        rintro ⟨h, -⟩
        cases hline.symm.trans h
      rw [loopSections, headedSections, hline]
      dsimp only
      cases header with
      | nil =>
        have hnot : ¬isNamedHeader line := by
          rintro ⟨n, hn, hne⟩
          cases hline.symm.trans hn
          exact hne rfl
        simp only [List.isEmpty_nil, if_true, List.nil_append]
        rw [ih _ [] (by simp), Option.getD_some, Option.getD_some]
        simp only [List.exists_mem_cons_iff, hnot, false_or, hprop, false_and, and_false]
      | cons c header =>
        have hnamed : isNamedHeader line := ⟨c :: header, hline, List.cons_ne_nil c header⟩
        simp only [List.isEmpty_cons, Bool.false_eq_true, if_false, List.singleton_append, List.cons.injEq,
          Section.mk.injEq, true_and, List.append_left_eq_self]
        rw [ih none (c :: header) (by simp), Option.getD_none, Option.getD_some]
        simp only [List.exists_mem_cons_iff, hnamed, true_or, and_true, hprop, false_and, and_false,
          ne_eq, not_true_eq_false, false_or, not_or, not_not]

/-- Both readers attribute every property line to the nearest header above it, and none to a missing
or empty one, exactly when no property below such a header has a named header below it. -/
theorem properties_headed_iff (content : List Char) :
    (parseIniSections content = headedSections (lines content) ↔ ¬Strays [] (lines content)) ∧
      (parseSections content = headedSections (lines content) ↔ ¬Strays [] (lines content)) := by
  have hloop : ((lines content).foldl ParseState.parseLine ParseState.init).flush =
      loopSections (some []) (lines content) := flush_foldl ParseState.init (lines content)
  have hiff := loopSections_eq_iff (some []) [] (lines content) (by simp)
  simp only [Option.getD_some, ne_eq, not_true_eq_false, false_and, false_or] at hiff
  rw [parseIniSections, parseSections, hloop]
  exact ⟨hiff, hiff⟩

/-- A property in front of the first header ends up in its section, and one below an empty header in
the next. -/
theorem properties_strayed :
    parseIniSections "a=1\n[1000]\n".toList ≠ headedSections (lines "a=1\n[1000]\n".toList) ∧
      parseSections "[]\nDefaultValue=5\n[2000]\n".toList =
        [⟨"2000".toList, [("DefaultValue".toList, "5".toList)]⟩] ∧
      headedSections (lines "[]\nDefaultValue=5\n[2000]\n".toList) = [⟨"2000".toList, []⟩] := by
  decide

end Canopen.Eds
