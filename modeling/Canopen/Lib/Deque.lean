import Mathlib.Data.List.Basic

/-!
# Bounded queues

A queue that holds at most `cap` elements. Appending to a full queue is refused;
`pushEvict` makes room by dropping the oldest element first, which is how an
event queue keeps the most recent entries.
-/

/-- A queue of capacity `cap`, oldest element first. -/
structure Deque (α : Type) (cap : ℕ) where
  items : List α
  length_le : items.length ≤ cap
  deriving DecidableEq, Repr

namespace Deque

variable {α : Type} {cap : ℕ}

def empty : Deque α cap := ⟨[], Nat.zero_le _⟩

def isFull (q : Deque α cap) : Bool := q.items.length == cap

def isEmpty (q : Deque α cap) : Bool := q.items.isEmpty

def popFront (q : Deque α cap) : Deque α cap :=
  ⟨q.items.tail, by have := q.length_le; simp; omega⟩

/-- Pop elements until one satisfies `p`; that one is taken too. -/
def popUntil (q : Deque α cap) (p : α → Bool) : Deque α cap :=
  ⟨(q.items.dropWhile (!p ·)).tail, by
    have hlen := q.length_le
    have hdrop := (q.items.dropWhile_suffix (!p ·)).length_le
    simp
    omega⟩

theorem length_concat_le {l : List α} {a : α} (h : l.length < cap) : (l ++ [a]).length ≤ cap := by
  rw [List.length_append, List.length_singleton]
  exact h

/-- Append at the back; a full queue is left as it is. -/
def pushBack (q : Deque α cap) (a : α) : Deque α cap :=
  if h : q.items.length < cap then ⟨q.items ++ [a], length_concat_le h⟩ else q

/-- Append at the back, dropping the oldest element of a full queue. -/
def pushEvict (q : Deque α cap) (a : α) : Deque α cap :=
  (if q.isFull then q.popFront else q).pushBack a

@[simp] theorem items_empty : (empty : Deque α cap).items = [] := rfl

theorem pushBack_items {q : Deque α cap} (h : q.isFull = false) (a : α) :
    (q.pushBack a).items = q.items ++ [a] := by
  have hl := q.length_le
  have hne : q.items.length ≠ cap := by simpa [isFull] using h
  have hlt : q.items.length < cap := by omega
  simp [pushBack, hlt]

/-- With room for at least one element, `pushEvict` appends exactly the new one
and drops exactly the oldest when the queue was full. -/
theorem pushEvict_items (q : Deque α cap) (hc : 0 < cap) (a : α) :
    (q.pushEvict a).items = (if q.isFull then q.items.tail else q.items) ++ [a] := by
  by_cases h : q.isFull
  · have hfull : q.items.length = cap := by simpa [isFull] using h
    have hroom : q.popFront.isFull = false := by
      simp [isFull, popFront]
      omega
    rw [pushEvict, if_pos h, pushBack_items hroom, if_pos h]
    rfl
  · have hroom : q.isFull = false := by simpa using h
    rw [pushEvict, if_neg h, pushBack_items hroom, if_neg h]

/-! ## Batches -/

/-- Append the elements of a batch one after the other. -/
def pushAll (q : Deque α cap) (l : List α) : Deque α cap := l.foldl pushEvict q

/-- How many elements a batch drives out, one for each time it finds the queue full. -/
def evictions (q : Deque α cap) : List α → ℕ
  | [] => 0
  | a :: l => (if q.isFull then 1 else 0) + (q.pushEvict a).evictions l

theorem pushAll_append (q : Deque α cap) (l l' : List α) :
    q.pushAll (l ++ l') = (q.pushAll l).pushAll l' := List.foldl_append

theorem evictions_append (q : Deque α cap) (l l' : List α) :
    q.evictions (l ++ l') = q.evictions l + (q.pushAll l).evictions l' := by
  induction l generalizing q with
  | nil => exact (Nat.zero_add _).symm
  | cons a l ih =>
    simp only [List.cons_append, evictions, ih]
    exact (Nat.add_assoc _ _ _).symm

/-! ## What a queue holds -/

/-- The queue holds what is left of the elements ever appended after the first `gone`
of them have been taken or driven out. -/
structure Holds (q : Deque α cap) (appended : List α) (gone : ℕ) : Prop where
  items : q.items = appended.drop gone
  gone_le : gone ≤ appended.length

theorem holds_empty : (empty : Deque α cap).Holds [] 0 := ⟨rfl, Nat.le_refl 0⟩

theorem Holds.length {q : Deque α cap} {appended : List α} {gone : ℕ} (h : q.Holds appended gone) :
    appended.length = gone + q.items.length := by
  have hle := h.gone_le
  rw [h.items, List.length_drop]
  omega

theorem Holds.pushEvict {q : Deque α cap} {appended : List α} {gone : ℕ}
    (h : q.Holds appended gone) (a : α) :
    (q.pushEvict a).Holds (appended ++ [a]) (gone + if q.isFull then 1 else 0) := by
  have hlen := h.length
  have hle := h.gone_le
  rcases Nat.eq_zero_or_pos cap with rfl | hcap
  · -- without capacity the element itself is lost
    have hnil : q.items.length = 0 := Nat.le_zero.mp q.length_le
    have hfull : q.isFull = true := by simp [isFull, hnil]
    have hnil' : (q.pushEvict a).items = [] :=
      List.length_eq_zero_iff.mp (Nat.le_zero.mp (q.pushEvict a).length_le)
    refine ⟨?_, ?_⟩
    · rw [hnil', if_pos hfull, List.drop_eq_nil_of_le]
      rw [List.length_append, List.length_singleton]
      omega
    · rw [if_pos hfull, List.length_append, List.length_singleton]
      omega
  · have hitems := q.pushEvict_items hcap a
    have hroom : gone + (if q.isFull then 1 else 0) ≤ appended.length := by
      split_ifs with hfull
      · have hcells : q.items.length = cap := by simpa [isFull] using hfull
        omega
      · exact hle
    refine ⟨?_, ?_⟩
    · rw [hitems, List.drop_append_of_le_length hroom, h.items]
      split_ifs
      · rw [List.tail_drop]
      · rfl
    · rw [List.length_append]
      omega

theorem Holds.pushAll {q : Deque α cap} {appended : List α} {gone : ℕ} (h : q.Holds appended gone)
    (l : List α) : (q.pushAll l).Holds (appended ++ l) (gone + q.evictions l) := by
  induction l generalizing q appended gone with
  | nil =>
    rw [List.append_nil]
    exact h
  | cons a l ih =>
    have hnext := ih (h.pushEvict a)
    rw [List.append_assoc, Nat.add_assoc] at hnext
    exact hnext

theorem Holds.popFront {q : Deque α cap} {appended : List α} {gone : ℕ} (h : q.Holds appended gone) :
    q.popFront.Holds appended (gone + if q.isEmpty then 0 else 1) := by
  have hlen := h.length
  cases hq : q.items with
  | nil =>
    have hempty : q.isEmpty = true := by simp [isEmpty, hq]
    refine ⟨?_, ?_⟩
    · rw [if_pos hempty, Nat.add_zero, ← h.items]
      simp [Deque.popFront, hq]
    · rw [if_pos hempty]
      exact h.gone_le
  | cons a l =>
    have hempty : ¬q.isEmpty = true := by simp [isEmpty, hq]
    refine ⟨?_, ?_⟩
    · rw [if_neg hempty, ← List.tail_drop, ← h.items]
      rfl
    · rw [if_neg hempty, hlen, hq, List.length_cons]
      omega

theorem Holds.popUntil {q : Deque α cap} {appended : List α} {gone : ℕ} (h : q.Holds appended gone)
    (p : α → Bool) :
    (q.popUntil p).Holds appended (gone + (q.items.length - (q.popUntil p).items.length)) := by
  have hlen := h.length
  -- what is left is a suffix of the queue, given by its length
  have hsuffix : (q.popUntil p).items <:+ q.items :=
    (List.tail_suffix _).trans (q.items.dropWhile_suffix _)
  have hle := hsuffix.length_le
  have hitems := List.suffix_iff_eq_drop.mp hsuffix
  refine ⟨?_, by omega⟩
  rw [← List.drop_drop, ← h.items]
  exact hitems

end Deque

/-! ## Counters

The elements that a queue loses are counted, up to the largest value of the counter. -/

namespace Counter

/-- Addition up to a largest value. -/
def addUpTo (largest a b : ℕ) : ℕ := min (a + b) largest

theorem addUpTo_of_le {largest a b : ℕ} (h : a + b ≤ largest) : addUpTo largest a b = a + b :=
  Nat.min_eq_left h

def saturatingAdd (a b : UInt32) : UInt32 := UInt32.ofNat (addUpTo 0xFFFFFFFF a.toNat b.toNat)

theorem toNat_saturatingAdd (a b : UInt32) :
    (saturatingAdd a b).toNat = min (a.toNat + b.toNat) 0xFFFFFFFF := by
  have hlt : min (a.toNat + b.toNat) 0xFFFFFFFF < 2 ^ 32 := by omega
  unfold saturatingAdd addUpTo
  rw [UInt32.toNat_ofNat_of_lt' hlt]

end Counter
