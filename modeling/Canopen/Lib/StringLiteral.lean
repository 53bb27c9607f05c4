import Canopen.Lib.Text

/-!
# String literals

The lexical rules of Rust string literals, read behind the opening quote. Every escape is longer
than the character it stands for, so a literal has its own body as a value only if no character
of the body is special.
-/

namespace StringLiteral

open Text

/-- Where a scanner stands inside a literal. -/
inductive Scan
  /-- Behind an escaped line end (`margin`), white space is passed over. -/
  | text (margin : Bool)
  | escape
  | hexHigh
  | hexLow (high : ℕ)
  | brace
  /-- The digits of a code point so far. -/
  | unicode (value count : ℕ)
  deriving DecidableEq, Repr

def simpleEscape (c : Char) : Option Char :=
  if c = 'n' then some '\n'
  else if c = 'r' then some '\r'
  else if c = 't' then some '\t'
  else if c = '0' then some (Char.ofNat 0)
  else if c = '\\' ∨ c = '\'' ∨ c = '"' then some c
  else none

/-- A character in front of what follows it. -/
def push (c : Char) (r : List Char × List Char) : List Char × List Char := (c :: r.1, r.2)

/-- The value of the rest of a literal, and what stands behind its closing quote. -/
def scan : Scan → List Char → Option (List Char × List Char)
  | _, [] => none
  | .text margin, c :: l =>
    if margin && (c == ' ' || c == '\t' || c == '\n' || c == '\r') then scan (.text true) l
    else if c = '"' then some ([], l)
    else if c = '\\' then scan .escape l
    else if c = '\r' then none
    else (scan (.text false) l).map (push c)
  | .escape, c :: l =>
    if c = '\n' then scan (.text true) l
    else if c = 'x' then scan .hexHigh l
    else if c = 'u' then scan .brace l
    else (simpleEscape c).bind fun v => (scan (.text false) l).map (push v)
  | .hexHigh, c :: l => (digitValue 8 c).bind fun d => scan (.hexLow d) l
  | .hexLow high, c :: l =>
    (digitValue 16 c).bind fun d => (scan (.text false) l).map (push (Char.ofNat (16 * high + d)))
  | .brace, c :: l => if c = '{' then scan (.unicode 0 0) l else none
  | .unicode value count, c :: l =>
    if c = '}' then
      if 0 < count ∧ value.isValidChar then (scan (.text false) l).map (push (Char.ofNat value)) else none
    else if c = '_' then if 0 < count then scan (.unicode value count) l else none
    else if count < 6 then (digitValue 16 c).bind fun d => scan (.unicode (16 * value + d) (count + 1)) l
    else none

/-- Source text has no carriage returns in front of line ends. -/
def normalizeNewlines : List Char → List Char
  | [] => []
  | c :: l => if c = '\r' ∧ l.head? = some '\n' then normalizeNewlines l else c :: normalizeNewlines l

/-- A literal whose opening quote has been read: its value, and what stands behind it. -/
def literal (l : List Char) : Option (List Char × List Char) := scan (.text false) (normalizeNewlines l)

/-- A body without special characters. -/
def Plain (body : List Char) : Prop := '\\' ∉ body ∧ '"' ∉ body ∧ '\r' ∉ body

instance (body : List Char) : Decidable (Plain body) := inferInstanceAs (Decidable (_ ∧ _ ∧ _))

/-! ## Lengths -/

theorem length_normalizeNewlines (l : List Char) : (normalizeNewlines l).length ≤ l.length := by
  induction l with
  | nil => exact Nat.le_refl 0
  | cons c l ih =>
    rw [normalizeNewlines]
    split_ifs
    · exact Nat.le_succ_of_le ih
    · exact Nat.succ_le_succ ih

theorem normalizeNewlines_eq_self {l : List Char} (h : l.length ≤ (normalizeNewlines l).length) :
    normalizeNewlines l = l := by
  induction l with
  | nil => rfl
  | cons c l ih =>
    rw [normalizeNewlines] at h ⊢
    split_ifs at h ⊢ with hcr
    · have hle := length_normalizeNewlines l
      rw [List.length_cons] at h
      omega
    · rw [ih (Nat.le_of_succ_le_succ h)]

theorem normalizeNewlines_of_not_mem {l : List Char} (h : '\r' ∉ l) : normalizeNewlines l = l := by
  induction l with
  | nil => rfl
  | cons c l ih =>
    rw [List.mem_cons, not_or] at h
    rw [normalizeNewlines, if_neg fun hcr => h.1 hcr.1.symm, ih h.2]

theorem map_push {c : Char} {x : Option (List Char × List Char)} {v rest : List Char}
    (h : x.map (push c) = some (v, rest)) : ∃ tail, x = some (tail, rest) ∧ v = c :: tail := by
  obtain ⟨r, hr, heq⟩ := Option.map_eq_some_iff.mp h
  cases heq
  exact ⟨r.1, hr, rfl⟩

/-- A literal ends with a quote, and each character of its value takes at least one character. -/
theorem scan_split {l : List Char} {s : Scan} {v rest : List Char} (h : scan s l = some (v, rest)) :
    ∃ body, l = body ++ '"' :: rest ∧ v.length ≤ body.length := by
  induction l generalizing s v with
  | nil => cases s <;> cases h
  | cons c l ih =>
    have hpass {s : Scan} (h : scan s l = some (v, rest)) :
        ∃ body, c :: l = body ++ '"' :: rest ∧ v.length ≤ body.length := by
      obtain ⟨body, rfl, hle⟩ := ih h
      exact ⟨c :: body, rfl, Nat.le_succ_of_le hle⟩
    have hpush {d : Char} (h : (scan (.text false) l).map (push d) = some (v, rest)) :
        ∃ body, c :: l = body ++ '"' :: rest ∧ v.length ≤ body.length := by
      obtain ⟨tail, htail, rfl⟩ := map_push h
      obtain ⟨body, rfl, hle⟩ := ih htail
      exact ⟨c :: body, rfl, Nat.succ_le_succ hle⟩
    cases s with
    | text margin =>
      rw [scan] at h
      split_ifs at h with _ hquote
      · exact hpass h
      · cases h
        exact ⟨[], by rw [hquote]; rfl, Nat.le_refl 0⟩
      · exact hpass h
      · exact hpush h
    | escape =>
      rw [scan] at h
      split_ifs at h
      · exact hpass h
      · exact hpass h
      · exact hpass h
      · obtain ⟨d, -, h⟩ := Option.bind_eq_some_iff.mp h
        exact hpush h
    | hexHigh =>
      obtain ⟨d, -, h⟩ := Option.bind_eq_some_iff.mp h
      exact hpass h
    | hexLow high =>
      obtain ⟨d, -, h⟩ := Option.bind_eq_some_iff.mp h
      exact hpush h
    | brace =>
      rw [scan] at h
      split_ifs at h
      exact hpass h
    | unicode value count =>
      rw [scan] at h
      split_ifs at h
      · exact hpush h
      · exact hpass h
      · obtain ⟨d, -, h⟩ := Option.bind_eq_some_iff.mp h
        exact hpass h

theorem length_scan {l : List Char} {s : Scan} {v rest : List Char} (h : scan s l = some (v, rest)) :
    v.length + rest.length + 1 ≤ l.length := by
  obtain ⟨body, rfl, hle⟩ := scan_split h
  rw [List.length_append, List.length_cons]
  omega

theorem length_literal {l v rest : List Char} (h : literal l = some (v, rest)) :
    v.length + rest.length + 1 ≤ l.length :=
  (length_scan h).trans (length_normalizeNewlines l)

/-! ## Closing quotes -/

theorem normalizeNewlines_append {body : List Char} {c : Char} (h : c ≠ '\n') :
    normalizeNewlines (body ++ [c]) = normalizeNewlines body ++ [c] := by
  have hsingle : normalizeNewlines [c] = [c] := if_neg fun hcr => by cases hcr.2
  induction body with
  | nil => exact hsingle
  | cons d body ih =>
    have hhead : (body ++ [c]).head? = some '\n' ↔ body.head? = some '\n' := by
      cases body with
      | nil => simpa using h
      | cons => rfl
    simp only [List.cons_append, normalizeNewlines, hhead, ih]
    split_ifs <;> rfl

theorem mem_normalizeNewlines {c : Char} {l : List Char} (h : c ∈ normalizeNewlines l) : c ∈ l := by
  induction l with
  | nil => cases h
  | cons d l ih =>
    rw [normalizeNewlines] at h
    split_ifs at h
    · exact List.mem_cons_of_mem d (ih h)
    · rcases List.mem_cons.mp h with rfl | h
      · exact List.mem_cons_self
      · exact List.mem_cons_of_mem d (ih h)

/-- The first quote closes a literal, or is in an escape. -/
theorem rest_eq_nil {body front rest : List Char} (hquote : '"' ∉ body)
    (h : literal (body ++ ['"']) = some (front, rest)) : rest = [] := by
  by_contra hrest
  rw [literal, normalizeNewlines_append (by decide)] at h
  obtain ⟨before, heq, -⟩ := scan_split h
  have hbody : before ++ '"' :: rest.dropLast = normalizeNewlines body := by
    have hdrop := congrArg List.dropLast heq
    rw [List.dropLast_concat, List.dropLast_append_of_ne_nil (by simp),
      List.dropLast_cons_of_ne_nil hrest] at hdrop
    exact hdrop.symm
  apply hquote
  apply mem_normalizeNewlines
  rw [← hbody]
  simp

/-! ## Values -/

theorem scan_plain {body : List Char} (h : Plain body) (rest : List Char) :
    scan (.text false) (body ++ '"' :: rest) = some (body, rest) := by
  obtain ⟨hescape, hquote, hreturn⟩ := h
  induction body with
  | nil => rfl
  | cons c body ih =>
    rw [List.mem_cons, not_or] at hescape hquote hreturn
    rw [List.cons_append, scan, Bool.false_and, if_neg Bool.false_ne_true, if_neg (Ne.symm hquote.1),
      if_neg (Ne.symm hescape.1), if_neg (Ne.symm hreturn.1), ih hescape.2 hquote.2 hreturn.2]
    rfl

/-- A value as long as what was read has no escapes. -/
theorem plain_of_length {l v rest : List Char} (h : scan (.text false) l = some (v, rest))
    (hlength : l.length ≤ v.length + rest.length + 1) : l = v ++ '"' :: rest ∧ Plain v := by
  induction l generalizing v with
  | nil => cases h
  | cons c l ih =>
    rw [scan, Bool.false_and, if_neg Bool.false_ne_true] at h
    split_ifs at h with hquote hescape hreturn
    · cases h
      exact ⟨by rw [hquote]; rfl, by simp [Plain]⟩
    · have hle := length_scan h
      rw [List.length_cons] at hlength
      omega
    · obtain ⟨tail, htail, rfl⟩ := map_push h
      rw [List.length_cons, List.length_cons] at hlength
      obtain ⟨heq, hplain⟩ := ih htail (by omega)
      refine ⟨by rw [heq]; rfl, ?_⟩
      simp only [Plain, List.mem_cons, not_or]
      exact ⟨⟨Ne.symm hescape, hplain.1⟩, ⟨Ne.symm hquote, hplain.2.1⟩, ⟨Ne.symm hreturn, hplain.2.2⟩⟩

theorem literal_eq_self_iff {body : List Char} :
    literal (body ++ ['"']) = some (body, []) ↔ Plain body := by
  constructor
  · intro h
    have hle := length_scan h
    have hsame : normalizeNewlines (body ++ ['"']) = body ++ ['"'] := by
      apply normalizeNewlines_eq_self
      simpa using hle
    rw [literal, hsame] at h
    exact (plain_of_length h (by simp)).2
  · intro h
    rw [literal, normalizeNewlines_of_not_mem (by simpa using h.2.2)]
    exact scan_plain h []

end StringLiteral
