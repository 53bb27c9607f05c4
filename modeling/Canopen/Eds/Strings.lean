import Canopen.Eds.Regrouping
import Canopen.Eds.Sections
import Canopen.Lib.StringLiteral

/-!
# Strings in EDS files

The importer puts the text of a string between quotes and hands it to the language as an
expression (`parse_var_entry`), and the generated constructor copies the value of the expression
into a string of fixed capacity (`field_defaults`). The exporter writes the value.
-/

namespace Canopen.Eds

open Text
open StringLiteral (Plain literal literal_eq_self_iff)

/-! ## Initial values -/

/-- The language, with the strings that expressions in a generated constructor have: `none` for an
expression that does not compile there. -/
structure RustLang extends Lang where
  stringOf : List Char → Option (List Char)

/-- Texts in quotes follow the lexical rules of string literals: a literal is an expression with its
value, and a text that breaks the rules in its first literal is no expression. -/
structure RustLang.ReadsLiterals (lang : RustLang) : Prop where
  single : ∀ body s, literal body = some (s, []) →
    lang.isExpr ('"' :: body) = true ∧ lang.stringOf ('"' :: body) = some s
  invalid : ∀ body, literal body = none → lang.isExpr ('"' :: body) = false

/-- The tokens of a default. -/
def Literal.sourceText : Literal → List Char
  | .int z => if z < 0 then '-' :: decimal z.natAbs else decimal z.natAbs
  | .bool b => if b then "true".toList else "false".toList
  | .source text => text

/-- A string that does not fit is not copied at all. -/
def pushStr (capacity : ℕ) (s : List Char) : List Char := if (utf8 s).length ≤ capacity then s else []

/-- The initial value of a string field, if the code is generated and compiles. -/
def initialString (lang : RustLang) (v : VarDef) : Option (List Char) :=
  v.capacity.bind fun capacity =>
    match v.defaultValue with
    | none => some []
    | some lit => (lang.stringOf lit.sourceText).map (pushStr capacity)

/-- The string that the importer's literal for a text computes. -/
def importedText (lang : RustLang) (value : List Char) : Option (List Char) :=
  match stringDefault lang.toLang .visibleString value with
  | none => some []
  | some lit => lang.stringOf lit.sourceText

/-! ## Texts -/

/-- A text without one enclosing pair of quotes; a quote at one end only belongs to the text. -/
def unquote : List Char → List Char
  | [] => []
  | c :: l => if c = '"' ∧ l.getLast? = some '"' then l.dropLast else c :: l

/-- The text of a default, nothing if there is none. -/
def defaultText (props : Props) : List Char :=
  unquote (trim ((getProp props "DefaultValue".toList).getD []))

def quotedText (s : List Char) : List Char := '"' :: s ++ ['"']

/-- A quote inside a text ends its literal early, and the tokens behind it make an expression that
computes the text all the same. -/
def ComputesItself (lang : RustLang) (v : List Char) : Prop :=
  let source := trimMatches (· == '"') v
  (∃ front rest, literal (source ++ ['"']) = some (front, rest) ∧ rest ≠ []) ∧
    lang.isExpr (quotedText source) = true ∧ lang.stringOf (quotedText source) = some (unquote v)

/-- The texts that become initial values as they are, but for an enclosing pair of quotes. -/
def KeepsText (lang : RustLang) (capacity : ℕ) (v : List Char) : Prop :=
  unquote v = [] ∨ (utf8 (unquote v)).length ≤ capacity ∧ (Plain (unquote v) ∨ ComputesItself lang v)

theorem unquote_cases (v : List Char) :
    unquote v = v ∨ v = quotedText (unquote v) := by
  cases v with
  | nil => exact .inl rfl
  | cons c l =>
    rw [unquote]
    split_ifs with hquoted
    · obtain ⟨rfl, hlast⟩ := hquoted
      right
      rw [quotedText, List.cons_append, List.dropLast_append_getLast? '"' hlast]
    · exact .inl rfl

theorem trimMatches_unquote (v : List Char) :
    trimMatches (· == '"') v = trimMatches (· == '"') (unquote v) := by
  rcases unquote_cases v with h | h
  · rw [h]
  · have htrim := trimMatches_cons_concat (p := (· == '"')) (beq_self_eq_true '"')
      (beq_self_eq_true '"') (unquote v)
    rw [← htrim]
    exact congrArg _ h

theorem trimMatches_eq_unquote {v : List Char} (h : '"' ∉ unquote v) :
    trimMatches (· == '"') v = unquote v := by
  rw [trimMatches_unquote]
  exact trimMatches_of_not_mem h

theorem unquote_eq_self {s : List Char} (h : trimMatches (· == '"') s = s) : unquote s = s := by
  rcases unquote_cases s with hself | hquoted
  · exact hself
  · rw [trimMatches_unquote] at h
    have hle := (trimMatches_sublist (· == '"') (unquote s)).length_le
    rw [h] at hle
    have hlength : s.length = (unquote s).length + 2 := by
      rw [congrArg List.length hquoted]
      simp [quotedText]
    omega

theorem pushStr_eq_self_iff {capacity : ℕ} {s t : List Char} (ht : t ≠ []) :
    pushStr capacity s = t ↔ s = t ∧ (utf8 t).length ≤ capacity := by
  unfold pushStr
  split_ifs with hfits
  · exact ⟨fun h => ⟨h, h ▸ hfits⟩, fun h => h.1⟩
  · constructor
    · exact fun h => absurd h.symm ht
    · rintro ⟨rfl, hle⟩
      exact absurd hle hfits

section
variable {lang : RustLang} (hlang : lang.ReadsLiterals)
include hlang

/-- The literal of a text has the specified text as its value for plain texts only. -/
theorem stringOf_eq_text_iff {v : List Char} :
    lang.isExpr (quotedText (trimMatches (· == '"') v)) = true ∧
      lang.stringOf (quotedText (trimMatches (· == '"') v)) = some (unquote v) ↔
        Plain (unquote v) ∨ ComputesItself lang v := by
  constructor
  · rintro ⟨hexpr, hstring⟩
    cases hread : literal (trimMatches (· == '"') v ++ ['"']) with
    | none =>
      rw [quotedText, List.cons_append, hlang.invalid _ hread] at hexpr
      cases hexpr
    | some r =>
      obtain ⟨front, rest⟩ := r
      by_cases hrest : rest = []
      · left
        subst hrest
        have hfront := (hlang.single _ _ hread).2
        rw [quotedText, List.cons_append, hfront] at hstring
        cases hstring
        -- the value is not longer than its source, which would miss a quote of the text
        have hlength : (unquote v).length ≤ (trimMatches (· == '"') v).length := by
          have hle := StringLiteral.length_literal hread
          simpa using hle
        rw [trimMatches_unquote] at hread hlength
        have hsame := (trimMatches_sublist (· == '"') (unquote v)).eq_of_length_le hlength
        rw [hsame] at hread
        exact literal_eq_self_iff.mp hread
      · exact .inr ⟨⟨front, rest, hread, hrest⟩, hexpr, hstring⟩
  · rintro (hplain | ⟨-, hself⟩)
    · rw [trimMatches_eq_unquote hplain.2.1]
      exact hlang.single _ _ (literal_eq_self_iff.mpr hplain)
    · exact hself

/-- What the importer makes of a text. -/
theorem importedText_eq_iff (value : List Char) :
    importedText lang value = some (unquote (trim value)) ↔
      unquote (trim value) = [] ∨ Plain (unquote (trim value)) ∨ ComputesItself lang (trim value) := by
  rw [importedText, stringDefault, if_pos rfl]
  generalize trim value = text
  dsimp only
  by_cases hs : trimMatches (· == '"') text = []
  · rw [if_pos (List.isEmpty_iff.mpr hs)]
    simp only [Option.some.injEq]
    -- only quotes: nothing is left, and more than a pair of them is lost
    constructor
    · exact fun h => .inl h.symm
    · rintro (hempty | hplain | ⟨⟨front, rest, hread, hrest⟩, -⟩)
      · exact hempty.symm
      · rw [← trimMatches_eq_unquote hplain.2.1, hs]
      · rw [hs] at hread
        cases hread
        exact absurd rfl hrest
  · have hne : unquote text ≠ [] := by
      intro hempty
      rw [trimMatches_unquote, hempty] at hs
      exact hs rfl
    rw [if_neg (by rwa [List.isEmpty_iff]), or_iff_right hne, ← stringOf_eq_text_iff hlang, quotedText]
    cases hexpr : lang.isExpr ('"' :: trimMatches (· == '"') text ++ ['"']) with
    | false => simpa using Ne.symm hne
    | true => simp [Literal.sourceText]

/-- The constructor of what the importer makes of a text. -/
theorem stringDefault_kept_iff {v : VarDef} {capacity : ℕ} {value : List Char}
    (hcapacity : v.capacity = some capacity)
    (hdefault : v.defaultValue = stringDefault lang.toLang .visibleString value) :
    initialString lang v = some (unquote (trim value)) ↔ KeepsText lang capacity (trim value) := by
  have hinitial : initialString lang v = (importedText lang value).map (pushStr capacity) := by
    rw [initialString, hcapacity, Option.bind_some, hdefault, importedText]
    cases stringDefault lang.toLang .visibleString value with
    | none => simp [pushStr, utf8]
    | some lit => rfl
  have himported := importedText_eq_iff hlang value
  rw [hinitial, KeepsText]
  by_cases hempty : unquote (trim value) = []
  · rw [himported.mpr (.inl hempty), hempty]
    simp [pushStr, utf8]
  · rw [or_iff_right hempty] at himported ⊢
    rw [← himported, Option.map_eq_some_iff]
    constructor
    · rintro ⟨text, htext, hpush⟩
      obtain ⟨rfl, hfits⟩ := (pushStr_eq_self_iff hempty).mp hpush
      exact ⟨hfits, htext⟩
    · rintro ⟨hfits, htext⟩
      exact ⟨_, htext, (pushStr_eq_self_iff hempty).mpr ⟨rfl, hfits⟩⟩

/-- Of a missing default only the digit that stands for a missing number is read. -/
theorem stringDefault_missing_iff {v : VarDef} {capacity : ℕ} (hcapacity : v.capacity = some capacity)
    (hdefault : v.defaultValue = stringDefault lang.toLang .visibleString ['0']) :
    initialString lang v = some [] ↔ capacity = 0 := by
  have htext : trimMatches (· == '"') (trim ['0']) = ['0'] := by decide
  have hone : (utf8 ['0']).length = 1 := by decide
  obtain ⟨hexpr, hstring⟩ := hlang.single _ _ (literal_eq_self_iff.mpr (by decide : Plain ['0']))
  rw [initialString, hcapacity, Option.bind_some, hdefault, stringDefault, if_pos rfl, htext,
    if_neg (by decide)]
  dsimp only
  rw [List.cons_append, hexpr, if_pos rfl]
  dsimp only
  rw [Literal.sourceText, hstring, Option.map_some, pushStr, hone]
  split_ifs with hfits
  · simp only [Option.some.injEq, List.cons_ne_nil, false_iff]
    omega
  · simp only [true_iff]
    omega

end

/-! ## Objects -/

theorem parseVarEntry_string {lang : Lang} {capacityOverrides : UInt16 → Option ℕ} {index : UInt16}
    {subindex : UInt8} {props : Props} {e : SubEntry}
    (h : parseVarEntry lang capacityOverrides index subindex props = .ok (some e))
    (htype : e.var.typeName = .visibleString) :
    e.var.capacity = some ((capacityOverrides index).getD 64) ∧
      e.var.defaultValue = stringDefault lang .visibleString
        ((getProp props "DefaultValue".toList).getD ['0']) := by
  unfold parseVarEntry at h
  split at h
  · split at h
    · cases h
    · obtain ⟨access, -, h⟩ := bind_ok h
      obtain ⟨default, hdefault, h⟩ := bind_ok h
      obtain ⟨ident, -, h⟩ := map_ok h
      cases h
      dsimp only at htype
      subst htype
      cases hdefault
      exact ⟨rfl, rfl⟩
  · cases h

theorem parseVarEntry_type {lang : Lang} {capacityOverrides : UInt16 → Option ℕ} {index : UInt16}
    {subindex : UInt8} {props : Props} {e : SubEntry}
    (h : parseVarEntry lang capacityOverrides index subindex props = .ok (some e)) :
    ∃ code, dataTypeCode props = some code ∧ datatypeToRust code = some e.var.typeName := by
  unfold parseVarEntry at h
  split at h
  · next name code hname hcode =>
    split at h
    · cases h
    · next typeName htype =>
      obtain ⟨access, -, h⟩ := bind_ok h
      obtain ⟨default, -, h⟩ := bind_ok h
      obtain ⟨ident, -, h⟩ := map_ok h
      cases h
      exact ⟨code, hcode, htype⟩
  · cases h

theorem typeName_exported {lang : Lang} {capacityOverrides : UInt16 → Option ℕ} {index : UInt16}
    {subindex : UInt8} {e : SubEntry} {syn : Syn} {v : VarDef} {name : List Char}
    (hv : v.typeName = .visibleString)
    (h : parseVarEntry lang capacityOverrides index subindex (v.flatEds syn index subindex name).props =
      .ok (some e)) : e.var.typeName = .visibleString := by
  obtain ⟨code, hcode, htype⟩ := parseVarEntry_type h
  have hvalue : getProp (v.flatEds syn index subindex name).props "DataType".toList =
      some "0x0009".toList := by
    have htext : "0x".toList ++ pad 4 (hex 0x0009) = "0x0009".toList := by decide
    rw [VarDef.flatEds, FlatEdsEntry.props, hv, ← htext]
    rfl
  have hparse : parseInt "0x0009".toList = some 0x0009 := by decide
  rw [dataTypeCode, hvalue, Option.bind_some, hparse] at hcode
  cases hcode
  exact (Option.some.inj htype).symm

/-- The default of a string object is read as it stands. -/
def Verbatim (lang : RustLang) (capacity : ℕ) (props : Props) : Prop :=
  match getProp props "DefaultValue".toList with
  | none => capacity = 0
  | some value => KeepsText lang capacity (trim value)

section
variable {lang : RustLang} (hlang : lang.ReadsLiterals) {capacityOverrides : UInt16 → Option ℕ}
  {index : UInt16} {subindex : UInt8} {props : Props} {e : SubEntry}
include hlang

theorem initialString_eq_text_iff
    (h : parseVarEntry lang.toLang capacityOverrides index subindex props = .ok (some e))
    (htype : e.var.typeName = .visibleString) :
    initialString lang e.var = some (defaultText props) ↔
      Verbatim lang ((capacityOverrides index).getD 64) props := by
  obtain ⟨hcapacity, hdefault⟩ := parseVarEntry_string h htype
  unfold Verbatim defaultText
  cases hprop : getProp props "DefaultValue".toList with
  | none =>
    rw [hprop] at hdefault
    exact stringDefault_missing_iff hlang hcapacity hdefault
  | some value =>
    rw [hprop] at hdefault
    exact stringDefault_kept_iff hlang hcapacity hdefault

/-- An exported string is read back if it is a text that importing keeps. -/
theorem initialString_exported_iff {syn : Syn} {v : VarDef} {s name : List Char}
    (hv : v.typeName = .visibleString)
    (hstring : v.defaultValue.map (Literal.expr syn) = some (.lit (.str s))) (htrim : trim s = s)
    (hquotes : trimMatches (· == '"') s = s)
    (h : parseVarEntry lang.toLang capacityOverrides index subindex
      (v.flatEds syn index subindex name).props = .ok (some e)) :
    initialString lang e.var = some s ↔ KeepsText lang ((capacityOverrides index).getD 64) s := by
  have hdefault : edsDefault syn v = s := by
    unfold edsDefault
    rw [hstring]
  have hprop : getProp (v.flatEds syn index subindex name).props "DefaultValue".toList = some s := by
    rw [VarDef.flatEds, FlatEdsEntry.props, hdefault]
    rfl
  have htext : defaultText (v.flatEds syn index subindex name).props = s := by
    rw [defaultText, hprop, Option.getD_some, htrim, unquote_eq_self hquotes]
  have hiff := initialString_eq_text_iff hlang h (typeName_exported hv h)
  rw [htext, Verbatim, hprop] at hiff
  rw [hiff]
  dsimp only
  rw [htrim]

omit hlang in
theorem keepsText_iff_of_unquoted {capacity : ℕ} {v : List Char} (hquote : '"' ∉ unquote v) :
    KeepsText lang capacity v ↔ unquote v = [] ∨
      (utf8 (unquote v)).length ≤ capacity ∧ '\\' ∉ unquote v ∧ '\r' ∉ unquote v := by
  have hself : ¬ComputesItself lang v := by
    rintro ⟨⟨front, rest, hread, hrest⟩, -⟩
    rw [trimMatches_eq_unquote hquote] at hread
    exact hrest (StringLiteral.rest_eq_nil hquote hread)
  rw [KeepsText, or_iff_left hself, Plain]
  simp only [hquote, not_false_eq_true, true_and]

end

/-- String defaults are imported verbatim exactly if they are texts without escapes that fit, also
those the exporter wrote. -/
theorem string_defaults_verbatim_iff {lang : RustLang} (hlang : lang.ReadsLiterals)
    (capacityOverrides : UInt16 → Option ℕ) (index : UInt16) (subindex : UInt8) :
    (∀ props e, parseVarEntry lang.toLang capacityOverrides index subindex props = .ok (some e) →
      e.var.typeName = .visibleString →
        (initialString lang e.var = some (defaultText props) ↔
          Verbatim lang ((capacityOverrides index).getD 64) props)) ∧
    (∀ (syn : Syn) (v : VarDef) (s name header : List Char) (ss : List Section) (e : SubEntry),
      v.typeName = .visibleString → v.defaultValue.map (Literal.expr syn) = some (.lit (.str s)) →
      trimMatches (· == '"') s = s →
      (∀ t ∈ ss, t.Clean) → Section.mk header (v.flatEds syn index subindex name).props ∈ ss →
      Section.mk header (v.flatEds syn index subindex name).props ∈ parseSections (textOf ss) ∧
        (parseVarEntry lang.toLang capacityOverrides index subindex
            (v.flatEds syn index subindex name).props = .ok (some e) →
          (initialString lang e.var = some s ↔ KeepsText lang ((capacityOverrides index).getD 64) s))) ∧
    ∀ v, '"' ∉ unquote v → (KeepsText lang ((capacityOverrides index).getD 64) v ↔
      unquote v = [] ∨ (utf8 (unquote v)).length ≤ (capacityOverrides index).getD 64 ∧
        '\\' ∉ unquote v ∧ '\r' ∉ unquote v) := by
  refine ⟨fun props e h htype => initialString_eq_text_iff hlang h htype, ?_,
    fun v hquote => keepsText_iff_of_unquoted hquote⟩
  intro syn v s name header ss e hv hstring hquotes hclean hmem
  have htrim : trim s = s := by
    have hdefault : edsDefault syn v = s := by
      unfold edsDefault
      rw [hstring]
    exact ((hclean _ hmem).values ("DefaultValue".toList, s)
      (by simp [VarDef.flatEds, FlatEdsEntry.props, objectProps, hdefault])).2
  rw [parseSections_written hclean]
  exact ⟨hmem, initialString_exported_iff hlang hv hstring htrim hquotes⟩

/-- The language with string literals for its only string expressions. -/
def literalLang : RustLang where
  toLang := { asciiLang with
    isExpr := fun
      | '"' :: body => (literal body).isSome
      | text => asciiLang.isExpr text }
  stringOf := fun
    | '"' :: body => (literal body).bind fun r => if r.2 = [] then some r.1 else none
    | _ => none

theorem literalLang_reads : literalLang.ReadsLiterals where
  single := by
    intro body s h
    constructor
    · exact congrArg Option.isSome h
    · change (literal body).bind _ = _
      rw [h]
      rfl
  invalid := fun body h => congrArg Option.isSome h

def stringProps (default : List Char) : Props :=
  objectProps "Model".toList 0x0009 "ro".toList default false

def stringEntry (default : Option Literal) : SubEntry :=
  ⟨0, "model".toList, ⟨.visibleString, some 64, default, .ro, false⟩⟩

def literalSyn : Syn where
  parseExpr := fun
    | '"' :: body =>
      match literal body with
      | some (s, []) => .lit (.str s)
      | _ => .other
    | _ => .other
  floatText := fun _ _ => none

/-- A file with one string is written and read. -/
theorem string_defaults_verbatim_plain :
    let v := (stringEntry (some (.source "\"A b\"".toList))).var
    let s : Section := ⟨"2000".toList, (v.flatEds literalSyn 0x2000 0 "Model".toList).props⟩
    s ∈ parseSections (textOf [s]) ∧
      parseVarEntry literalLang.toLang (fun _ => none) 0x2000 0 s.props =
        .ok (some (stringEntry (some (.source "\"A b\"".toList)))) ∧
      initialString literalLang v = some (defaultText s.props) ∧
      initialString literalLang v = some "A b".toList := by
  intro v s
  obtain ⟨himported, hexported, hkept⟩ :=
    string_defaults_verbatim_iff literalLang_reads (fun _ => none) 0x2000 0
  have hprops : s.props = stringProps "A b".toList := by decide
  have hparse : parseVarEntry literalLang.toLang (fun _ => none) 0x2000 0 s.props =
      .ok (some (stringEntry (some (.source "\"A b\"".toList)))) := by
    rw [hprops]
    decide
  have hclean : ∀ t ∈ [s], t.Clean := by
    intro t ht
    rw [List.mem_singleton.mp ht]
    refine ⟨⟨by decide, ?_⟩, by decide, ?_⟩
    · rw [hprops]
      decide
    · rw [hprops]
      decide
  have hkeeps : KeepsText literalLang 64 "A b".toList := (hkept _ (by decide)).mpr (.inr (by decide))
  obtain ⟨hmem, hread⟩ := hexported literalSyn v "A b".toList "Model".toList "2000".toList [s] _ rfl
    (by decide) (by decide) hclean List.mem_cons_self
  have hprop : getProp s.props "DefaultValue".toList = some "A b".toList := by
    rw [hprops]
    decide
  have hverbatim : Verbatim literalLang 64 s.props := by
    rw [Verbatim, hprop]
    exact hkeeps
  exact ⟨hmem, hparse, (himported _ _ hparse rfl).mpr hverbatim, (hread hparse).mpr hkeeps⟩

/-- A missing default becomes a digit, a backslash begins an escape, and a lone quote is lost. -/
theorem string_defaults_changed :
    parseVarEntry literalLang.toLang (fun _ => none) 0x2000 0 ((stringProps []).eraseIdx 4) =
        .ok (some (stringEntry (some (.source "\"0\"".toList)))) ∧
      defaultText ((stringProps []).eraseIdx 4) = [] ∧
      initialString literalLang (stringEntry (some (.source "\"0\"".toList))).var = some ['0'] ∧
      parseVarEntry literalLang.toLang (fun _ => none) 0x2000 0 (stringProps "C:\\new".toList) =
        .ok (some (stringEntry (some (.source "\"C:\\new\"".toList)))) ∧
      defaultText (stringProps "C:\\new".toList) = "C:\\new".toList ∧
      initialString literalLang (stringEntry (some (.source "\"C:\\new\"".toList))).var =
        some "C:\new".toList ∧
      parseVarEntry literalLang.toLang (fun _ => none) 0x2000 0 (stringProps "Rack 19\"".toList) =
        .ok (some (stringEntry (some (.source "\"Rack 19\"".toList)))) ∧
      defaultText (stringProps "Rack 19\"".toList) = "Rack 19\"".toList ∧
      initialString literalLang (stringEntry (some (.source "\"Rack 19\"".toList))).var =
        some "Rack 19".toList := by
  decide

end Canopen.Eds
