import Mathlib.Data.List.Infix
import Mathlib.Tactic.Ring

/-!
# Text

Texts are lists of characters. The functions are those of the Rust string type: white
space is the Unicode property, letter case is that of ASCII, and a number may start with
a plus sign.
-/

namespace Text

/-! ## White space -/

def isWhite (c : Char) : Bool :=
  let n := c.toNat
  9 ≤ n && n ≤ 13 || n == 0x20 || n == 0x85 || n == 0xA0 || n == 0x1680 ||
    0x2000 ≤ n && n ≤ 0x200A || n == 0x2028 || n == 0x2029 || n == 0x202F || n == 0x205F ||
    n == 0x3000

/-- Remove the characters satisfying `p` from both ends. -/
def trimMatches (p : Char → Bool) (l : List Char) : List Char :=
  ((l.dropWhile p).reverse.dropWhile p).reverse

def trim (l : List Char) : List Char := trimMatches isWhite l

theorem trimMatches_of_ends {p : Char → Bool} {l : List Char} (hhead : ∀ c ∈ l.head?, p c = false)
    (hlast : ∀ c ∈ l.getLast?, p c = false) : trimMatches p l = l := by
  have hdrop : ∀ {l : List Char}, (∀ c ∈ l.head?, p c = false) → l.dropWhile p = l := by
    intro l h
    cases l with
    | nil => rfl
    | cons c l => rw [List.dropWhile_cons_of_neg (by rw [h c rfl]; exact Bool.false_ne_true)]
  rw [trimMatches, hdrop hhead, hdrop (by rw [List.head?_reverse]; exact hlast), List.reverse_reverse]

/-- The ends of a trimmed text stay. -/
theorem ends_trimMatches {p : Char → Bool} {l : List Char} :
    (∀ c ∈ (trimMatches p l).head?, p c = false) ∧
      ∀ c ∈ (trimMatches p l).getLast?, p c = false := by
  have hdrop : ∀ (l : List Char), ∀ c ∈ (l.dropWhile p).head?, p c = false := by
    intro l c hc
    have h := List.head?_dropWhile_not p l
    rw [Option.mem_def] at hc
    rw [hc] at h
    simpa using h
  refine ⟨?_, ?_⟩
  · intro c hc
    rw [trimMatches, List.head?_reverse] at hc
    -- what is left of the end is an initial part of what was left of the front
    have hsuffix := (l.dropWhile p).reverse.dropWhile_suffix p
    obtain ⟨t, ht⟩ := hsuffix
    have hlast : (l.dropWhile p).reverse.getLast? = some c := by
      rw [← ht, List.getLast?_append]
      rw [Option.mem_def] at hc
      rw [hc]
      rfl
    rw [List.getLast?_reverse] at hlast
    exact hdrop l c hlast
  · intro c hc
    rw [trimMatches, List.getLast?_reverse] at hc
    exact hdrop _ c hc

theorem trimMatches_idem (p : Char → Bool) (l : List Char) :
    trimMatches p (trimMatches p l) = trimMatches p l :=
  trimMatches_of_ends ends_trimMatches.1 ends_trimMatches.2

theorem trimMatches_of_not_mem {a : Char} {l : List Char} (h : a ∉ l) :
    trimMatches (· == a) l = l := by
  have hne : ∀ c ∈ l, (c == a) = false := by
    intro c hc
    rw [beq_eq_false_iff_ne]
    rintro rfl
    exact h hc
  refine trimMatches_of_ends ?_ ?_
  · exact fun c hc => hne c (List.mem_of_mem_head? hc)
  · exact fun c hc => hne c (List.mem_of_mem_getLast? hc)

theorem trimMatches_cons_concat {p : Char → Bool} {c d : Char} (hc : p c = true) (hd : p d = true)
    (l : List Char) : trimMatches p (c :: l ++ [d]) = trimMatches p l := by
  have hend : [d].dropWhile p = [] := List.dropWhile_cons_of_pos hd
  rw [trimMatches, List.cons_append, List.dropWhile_cons_of_pos hc, List.dropWhile_append, hend]
  split_ifs with hempty
  · rw [trimMatches, List.isEmpty_iff.mp hempty]
  · rw [List.reverse_append, List.reverse_singleton, List.singleton_append,
      List.dropWhile_cons_of_pos hd, trimMatches]

theorem trimMatches_sublist (p : Char → Bool) (l : List Char) : (trimMatches p l).Sublist l := by
  have hend := (l.dropWhile p).reverse.dropWhile_sublist p
  have hback := List.reverse_sublist.mpr hend
  rw [List.reverse_reverse] at hback
  exact hback.trans (l.dropWhile_sublist p)

theorem trim_idem (l : List Char) : trim (trim l) = trim l := trimMatches_idem isWhite l

/-! ## Parts -/

def stripPrefix (front l : List Char) : Option (List Char) :=
  if front.isPrefixOf l then some (l.drop front.length) else none

def stripSuffix (tail l : List Char) : Option (List Char) :=
  (stripPrefix tail.reverse l.reverse).map List.reverse

theorem stripPrefix_append (front l : List Char) : stripPrefix front (front ++ l) = some l := by
  have hfront : front.isPrefixOf (front ++ l) = true := List.isPrefixOf_iff_prefix.mpr ⟨l, rfl⟩
  rw [stripPrefix, if_pos hfront, List.drop_left]

theorem stripSuffix_append (l tail : List Char) : stripSuffix tail (l ++ tail) = some l := by
  rw [stripSuffix, List.reverse_append, stripPrefix_append, Option.map_some, List.reverse_reverse]

theorem stripSuffix_of_ne {c d : Char} (h : c ≠ d) (tail l : List Char) :
    stripSuffix (tail ++ [c]) (l ++ [d]) = none := by
  simp [stripSuffix, stripPrefix, List.isPrefixOf, h]

/-- The parts before and after the first occurrence of `sep`. -/
def splitOnce (sep : List Char) : List Char → Option (List Char × List Char)
  | [] => if sep.isEmpty then some ([], []) else none
  | c :: l =>
    if sep.isPrefixOf (c :: l) then some ([], (c :: l).drop sep.length)
    else (splitOnce sep l).map fun parts => (c :: parts.1, parts.2)

theorem splitOnce_of_not_mem {c : Char} {l : List Char} (h : c ∉ l) (sep : List Char) :
    splitOnce (c :: sep) l = none := by
  induction l with
  | nil => rfl
  | cons a l ih =>
    obtain ⟨hne, hrest⟩ := List.ne_and_not_mem_of_not_mem_cons h
    have hfront : (c :: sep).isPrefixOf (a :: l) = false := by simp [List.isPrefixOf, hne]
    rw [splitOnce, if_neg (by rw [hfront]; exact Bool.false_ne_true), ih hrest]
    rfl

/-- The first occurrence is found when its first character does not come before. -/
theorem splitOnce_append {c : Char} {a : List Char} (h : c ∉ a) (sep b : List Char) :
    splitOnce (c :: sep) (a ++ c :: sep ++ b) = some (a, b) := by
  induction a with
  | nil =>
    have hfront : (c :: sep).isPrefixOf (c :: (sep ++ b)) = true :=
      List.isPrefixOf_iff_prefix.mpr ⟨b, rfl⟩
    rw [List.nil_append, List.cons_append, splitOnce, if_pos hfront]
    simp
  | cons d a ih =>
    obtain ⟨hne, hrest⟩ := List.ne_and_not_mem_of_not_mem_cons h
    have hfront : (c :: sep).isPrefixOf (d :: (a ++ c :: sep ++ b)) = false := by
      simp [List.isPrefixOf, hne]
    rw [List.cons_append, List.cons_append, splitOnce,
      if_neg (by rw [hfront]; exact Bool.false_ne_true), ih hrest]
    rfl

/-- The parts between the line ends. -/
def lines : List Char → List (List Char)
  | [] => [[]]
  | c :: l =>
    if c = '\n' then [] :: lines l
    else match lines l with
      | [] => [[c]]
      | line :: rest => (c :: line) :: rest

/-- The text of some lines. -/
def unlines (l : List (List Char)) : List Char := l.flatMap (· ++ ['\n'])

theorem lines_cons_ne {c : Char} (h : c ≠ '\n') (l : List Char) :
    ∃ first rest, lines l = first :: rest ∧ lines (c :: l) = (c :: first) :: rest := by
  induction l generalizing c with
  | nil => exact ⟨[], [], rfl, by simp [lines, h]⟩
  | cons d l ih =>
    by_cases hd : d = '\n'
    · exact ⟨[], lines l, by simp [lines, hd], by simp [lines, h, hd]⟩
    · obtain ⟨first, rest, hl, hdl⟩ := ih hd
      exact ⟨d :: first, rest, hdl, by rw [lines, if_neg h, hdl]⟩

/-- A text without line ends goes in front of the first line. -/
theorem lines_front {a : List Char} (h : '\n' ∉ a) (b : List Char) :
    ∃ first rest, lines b = first :: rest ∧ lines (a ++ b) = (a ++ first) :: rest := by
  induction a with
  | nil =>
    cases b with
    | nil => exact ⟨[], [], rfl, rfl⟩
    | cons c b =>
      by_cases hc : c = '\n'
      · exact ⟨[], lines b, by simp [lines, hc], by simp [lines, hc]⟩
      · obtain ⟨first, rest, -, hcb⟩ := lines_cons_ne hc b
        exact ⟨c :: first, rest, hcb, hcb⟩
  | cons d a ih =>
    obtain ⟨hne, hrest⟩ := List.ne_and_not_mem_of_not_mem_cons h
    obtain ⟨first, rest, hb, hab⟩ := ih hrest
    obtain ⟨first', rest', hab', hdab⟩ := lines_cons_ne (Ne.symm hne) (a ++ b)
    rw [hab] at hab'
    cases hab'
    exact ⟨first, rest, hb, hdab⟩

theorem lines_of_not_mem {l : List Char} (h : '\n' ∉ l) : lines l = [l] := by
  obtain ⟨first, rest, hnil, hl⟩ := lines_front h []
  cases hnil
  rw [List.append_nil] at hl
  exact hl

theorem lines_append (a b : List Char) : lines (a ++ '\n' :: b) = lines a ++ lines b := by
  induction a with
  | nil => rfl
  | cons c a ih =>
    by_cases hc : c = '\n'
    · simp only [List.cons_append, lines, hc, if_true, ih]
    · obtain ⟨first, rest, ha, hca⟩ := lines_cons_ne hc a
      obtain ⟨first', rest', hab, hcab⟩ := lines_cons_ne hc (a ++ '\n' :: b)
      rw [ih, ha, List.cons_append] at hab
      cases hab
      rw [List.cons_append, hcab, hca, List.cons_append]

theorem lines_unlines (ls : List (List Char)) : lines (unlines ls) = ls.flatMap lines ++ [[]] := by
  induction ls with
  | nil => rfl
  | cons l ls ih =>
    have hsplit : unlines (l :: ls) = l ++ '\n' :: unlines ls := by simp [unlines]
    rw [hsplit, lines_append, ih, List.flatMap_cons, List.append_assoc]

/-- `sub` occurs in `l`. -/
def contains (sub l : List Char) : Bool := l.tails.any (sub.isPrefixOf ·)

theorem contains_iff {sub l : List Char} : contains sub l = true ↔ sub <:+: l := by
  unfold contains
  rw [List.any_eq_true]
  constructor
  · rintro ⟨t, ht, hfront⟩
    exact (List.isPrefixOf_iff_prefix.mp hfront).isInfix.trans ((List.mem_tails _ _).mp ht).isInfix
  · rintro ⟨a, b, rfl⟩
    refine ⟨sub ++ b, (List.mem_tails _ _).mpr ⟨a, by rw [List.append_assoc]⟩, ?_⟩
    exact List.isPrefixOf_iff_prefix.mpr ⟨b, rfl⟩

theorem contains_map (f : Char → Char) {sub l : List Char} (h : contains sub l = true) :
    contains (sub.map f) (l.map f) = true :=
  contains_iff.mpr ((contains_iff.mp h).map f)

def lowercase (l : List Char) : List Char := l.map Char.toLower

def uppercase (l : List Char) : List Char := l.map Char.toUpper

def eqIgnoreAsciiCase (a b : List Char) : Bool := lowercase a == lowercase b

theorem toNat_toLower (c : Char) : c.toLower = c ∨
    (65 ≤ c.toNat ∧ c.toNat ≤ 90 ∧ c.toLower.toNat = c.toNat + 32) := by
  by_cases h : c.val ≥ 'A'.val ∧ c.val ≤ 'Z'.val
  · right
    have hlow : 65 ≤ c.toNat := UInt32.le_iff_toNat_le.mp h.1
    have hhigh : c.toNat ≤ 90 := UInt32.le_iff_toNat_le.mp h.2
    refine ⟨hlow, hhigh, ?_⟩
    delta Char.toLower
    rw [dif_pos h]
    change (c.val + ('a'.val - 'A'.val)).toNat = c.val.toNat + 32
    rw [UInt32.toNat_add, show ('a'.val - 'A'.val : UInt32).toNat = 32 by decide]
    change 65 ≤ c.val.toNat at hlow
    change c.val.toNat ≤ 90 at hhigh
    omega
  · left
    delta Char.toLower
    rw [dif_neg h]

theorem eq_of_toLower {c d : Char} (h : c.toLower = d) : c = d ∨ c = Char.ofNat (d.toNat - 32) := by
  rcases toNat_toLower c with hsame | ⟨hlow, hhigh, hnat⟩
  · exact .inl (hsame.symm.trans h)
  · right
    rw [h] at hnat
    rw [hnat, Nat.add_sub_cancel, Char.ofNat_toNat]

/-! ## Numbers -/

/-- The value of a digit or letter, in either letter case. -/
def charValue (c : Char) : Option ℕ :=
  let n := c.toNat
  if 48 ≤ n ∧ n ≤ 57 then some (n - 48)
  else if 97 ≤ n ∧ n ≤ 122 then some (n - 87)
  else if 65 ≤ n ∧ n ≤ 90 then some (n - 55)
  else none

def digitValue (base : ℕ) (c : Char) : Option ℕ := (charValue c).filter (· < base)

/-- The number `n` continued by further digits. -/
def continueDigits (base : ℕ) : ℕ → List Char → Option ℕ
  | n, [] => some n
  | n, c :: l => (digitValue base c).bind fun d => continueDigits base (base * n + d) l

def digits (base : ℕ) (l : List Char) : Option ℕ :=
  if l.isEmpty then none else continueDigits base 0 l

/-- An unsigned number below `bound`. -/
def fromStrRadix (base bound : ℕ) (l : List Char) : Option ℕ :=
  let body := match l with
    | '+' :: l => l
    | l => l
  (digits base body).filter (· < bound)

/-- A signed decimal number of which the absolute value is at most `bound`, below zero, or
less than `bound`. -/
def fromStrSigned (bound : ℕ) (l : List Char) : Option ℤ :=
  match l with
  | '-' :: l => ((digits 10 l).filter (· ≤ bound)).map fun n : ℕ => -(n : ℤ)
  | l => (fromStrRadix 10 bound l).map fun n : ℕ => (n : ℤ)

theorem fromStrSigned_minus (bound : ℕ) (l : List Char) : fromStrSigned bound ('-' :: l) =
    ((digits 10 l).filter (· ≤ bound)).map fun n : ℕ => -(n : ℤ) := rfl

theorem fromStrSigned_of_head {bound : ℕ} {l : List Char} (h : l.head? ≠ some '-') :
    fromStrSigned bound l = (fromStrRadix 10 bound l).map fun n : ℕ => (n : ℤ) := by
  unfold fromStrSigned
  split
  · exact (h rfl).elim
  · rfl

theorem digitValue_of_continueDigits {base n m : ℕ} {l : List Char}
    (h : continueDigits base n l = some m) : ∀ c ∈ l, (digitValue base c).isSome = true := by
  induction l generalizing n with
  | nil => exact fun c hc => (List.not_mem_nil hc).elim
  | cons c l ih =>
    obtain ⟨d, hd, hrest⟩ := Option.bind_eq_some_iff.mp h
    intro c' hc'
    rcases List.mem_cons.mp hc' with rfl | hmem
    · rw [hd]
      rfl
    · exact ih hrest c' hmem

theorem digitValue_of_digits {base n : ℕ} {l : List Char} (h : digits base l = some n) :
    ∀ c ∈ l, (digitValue base c).isSome = true := by
  unfold digits at h
  split_ifs at h
  exact digitValue_of_continueDigits h

theorem charValue_of_digits {base n : ℕ} {l : List Char} (h : digits base l = some n) :
    ∀ c ∈ l, (charValue c).isSome = true := by
  intro c hc
  obtain ⟨d, hd⟩ := Option.isSome_iff_exists.mp (digitValue_of_digits h c hc)
  rw [(Option.filter_eq_some_iff.mp hd).1]
  rfl

theorem fromStrRadix_of_head {base bound : ℕ} {l : List Char} (h : l.head? ≠ some '+') :
    fromStrRadix base bound l = (digits base l).filter (· < bound) := by
  unfold fromStrRadix
  dsimp only
  split
  · exact (h rfl).elim
  · rfl

theorem charValue_of_fromStrRadix {base bound n : ℕ} {l : List Char}
    (h : fromStrRadix base bound l = some n) {c : Char} (hc : c ∈ l) :
    c = '+' ∨ (charValue c).isSome = true := by
  have hdigits := (Option.filter_eq_some_iff.mp h).1
  split at hdigits
  · rcases List.mem_cons.mp hc with rfl | hmem
    · exact .inl rfl
    · exact .inr (charValue_of_digits hdigits c hmem)
  · exact .inr (charValue_of_digits hdigits c hc)

def decimal (n : ℕ) : List Char := Nat.toDigits 10 n

/-- Upper-case hexadecimal digits. -/
def hex (n : ℕ) : List Char := (Nat.toDigits 16 n).map Char.toUpper

/-- Leading zeros up to a width. -/
def pad (width : ℕ) (l : List Char) : List Char := List.replicate (width - l.length) '0' ++ l

theorem charValue_digitChar {d : ℕ} (hd : d < 16) : charValue d.digitChar = some d := by
  have hall : ∀ d : Fin 16, charValue d.1.digitChar = some d.1 := by decide
  exact hall ⟨d, hd⟩

theorem digitValue_digitChar {base d : ℕ} (hbase : base ≤ 16) (hd : d < base) :
    digitValue base d.digitChar = some d := by
  rw [digitValue, charValue_digitChar (by omega)]
  simpa using hd

theorem continueDigits_append (base n : ℕ) (l l' : List Char) :
    continueDigits base n (l ++ l') =
      (continueDigits base n l).bind fun m => continueDigits base m l' := by
  induction l generalizing n with
  | nil => rfl
  | cons c l ih =>
    simp only [List.cons_append, continueDigits]
    cases digitValue base c with
    | none => rfl
    | some d => exact ih _

theorem continueDigits_toDigits {base : ℕ} (hlow : 1 < base) (hbase : base ≤ 16) (n : ℕ) :
    continueDigits base 0 (Nat.toDigits base n) = some n := by
  induction n using Nat.strong_induction_on with
  | _ n ih =>
    rcases Nat.lt_or_ge n base with hlt | hge
    · rw [Nat.toDigits_of_lt_base hlt]
      simp [continueDigits, digitValue_digitChar hbase hlt]
    · have hmod : n % base < base := Nat.mod_lt _ (by omega)
      rw [Nat.toDigits_of_base_le hlow hge, continueDigits_append,
        ih (n / base) (Nat.div_lt_self (by omega) hlow)]
      simp only [Option.bind_some, continueDigits, digitValue_digitChar hbase hmod]
      rw [Nat.div_add_mod]

theorem charValue_toUpper (c : Char) : charValue c.toUpper = charValue c := by
  by_cases h : c.val ≥ 'a'.val ∧ c.val ≤ 'z'.val
  · have hlow : 97 ≤ c.toNat := UInt32.le_iff_toNat_le.mp h.1
    have hhigh : c.toNat ≤ 122 := UInt32.le_iff_toNat_le.mp h.2
    have hnat : c.toUpper.toNat = c.toNat - 32 := by
      delta Char.toUpper
      rw [dif_pos h]
      change (c.val + ('A'.val - 'a'.val)).toNat = c.val.toNat - 32
      rw [UInt32.toNat_add, show ('A'.val - 'a'.val : UInt32).toNat = 2 ^ 32 - 32 by decide]
      change 97 ≤ c.val.toNat at hlow
      change c.val.toNat ≤ 122 at hhigh
      omega
    simp only [charValue, hnat]
    rw [if_neg (by omega), if_neg (by omega), if_pos (by omega), if_neg (by omega),
      if_pos (by omega)]
    congr 1
  · delta Char.toUpper
    rw [dif_neg h]

theorem charValue_toLower (c : Char) : charValue c.toLower = charValue c := by
  rcases toNat_toLower c with hsame | ⟨hlow, hhigh, hnat⟩
  · rw [hsame]
  · simp only [charValue, hnat]
    rw [if_neg (by omega), if_pos (by omega), if_neg (by omega), if_neg (by omega),
      if_pos (by omega)]
    congr 1

theorem digits_lowercase (base : ℕ) (l : List Char) : digits base (lowercase l) = digits base l := by
  have hcontinue : ∀ (l : List Char) n, continueDigits base n (lowercase l) = continueDigits base n l := by
    intro l
    induction l with
    | nil => exact fun _ => rfl
    | cons c l ih =>
      intro n
      rw [lowercase, List.map_cons]
      simp only [continueDigits, digitValue, charValue_toLower]
      exact congrArg _ (funext fun d => ih _)
  unfold digits
  rw [hcontinue, lowercase, List.isEmpty_map]

theorem continueDigits_toUpper (base n : ℕ) (l : List Char) :
    continueDigits base n (l.map Char.toUpper) = continueDigits base n l := by
  induction l generalizing n with
  | nil => rfl
  | cons c l ih => simp only [List.map_cons, continueDigits, digitValue, charValue_toUpper, ih]

theorem digits_hex (n : ℕ) : digits 16 (hex n) = some n := by
  have hne : (hex n).isEmpty = false := by
    rw [hex, List.isEmpty_map]
    simp
  rw [digits, if_neg (by rw [hne]; exact Bool.false_ne_true), hex, continueDigits_toUpper,
    continueDigits_toDigits (by omega) (by omega)]

theorem digits_decimal (n : ℕ) : digits 10 (decimal n) = some n := by
  have hne : (decimal n).isEmpty = false := by simp [decimal]
  rw [digits, if_neg (by rw [hne]; exact Bool.false_ne_true), decimal,
    continueDigits_toDigits (by omega) (by omega)]

/-- Leading zeros do not matter in a number. -/
theorem digits_pad {base n : ℕ} (hbase : 0 < base) (width : ℕ) {l : List Char}
    (h : digits base l = some n) : digits base (pad width l) = some n := by
  have hzeros : ∀ k, continueDigits base 0 (List.replicate k '0' ++ l) = continueDigits base 0 l := by
    intro k
    induction k with
    | zero => rfl
    | succ k ih =>
      have hzero : digitValue base '0' = some 0 := by
        rw [digitValue, show charValue '0' = some 0 from rfl, Option.filter_some,
          if_pos (decide_eq_true hbase)]
      simp only [List.replicate_succ, List.cons_append, continueDigits, hzero, Option.bind_some]
      exact ih
  unfold digits at h ⊢
  split_ifs at h with hempty
  have hne : (pad width l).isEmpty = false := by
    cases l with
    | nil => exact (hempty rfl).elim
    | cons c l => simp [pad]
  rw [if_neg (by rw [hne]; exact Bool.false_ne_true), pad, hzeros, h]

theorem fromStrRadix_of_digits {base bound n : ℕ} {l : List Char} (h : digits base l = some n)
    (hn : n < bound) : fromStrRadix base bound l = some n := by
  have hhead : l.head? ≠ some '+' := by
    intro hplus
    have hdigit := charValue_of_digits h '+' (List.mem_of_head? hplus)
    exact absurd hdigit (by decide)
  rw [fromStrRadix_of_head hhead, h, Option.filter_some, if_pos (decide_eq_true hn)]

theorem isWhite_of_charValue {c : Char} (h : (charValue c).isSome = true) : isWhite c = false := by
  have hrange : 48 ≤ c.toNat ∧ c.toNat ≤ 122 := by
    unfold charValue at h
    dsimp only at h
    split_ifs at h with h1 h2 h3
    · omega
    · omega
    · omega
    · cases h
  simp only [isWhite, Bool.or_eq_false_iff, Bool.and_eq_false_iff, decide_eq_false_iff_not,
    beq_eq_false_iff_ne, ne_eq]
  omega

theorem trim_of_forall {l : List Char} (h : ∀ c ∈ l, isWhite c = false) : trim l = l := by
  refine trimMatches_of_ends ?_ ?_
  · exact fun c hc => h c (List.mem_of_mem_head? hc)
  · exact fun c hc => h c (List.mem_of_mem_getLast? hc)

end Text
