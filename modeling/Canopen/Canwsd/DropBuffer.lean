import Canopen.Lib.Deque
import Canopen.Lib.LossReport
import Canopen.Lib.Runs

/-!
# The drop buffer

The bounded queue of a diagnostic stream (`canwsd/src/drop_buffer.rs`). A push that finds
the queue full discards the whole backlog and counts it; the next drain reports the count
before it returns an item. The lock of the buffer makes every operation one step, so any
number of producers and consumers is a list of steps. A `next` that finds nothing waits and
looks again later, which is a step without an event.
-/

namespace Canopen.Canwsd

open LossReport

/-- What a drain returns. -/
inductive BufferEvent (α : Type)
  | item (a : α)
  | overflow (dropped : ℕ)
  | closed (error : String)
  deriving DecidableEq, Repr

def u64Max : ℕ := 2 ^ 64 - 1

structure DropBuffer (α : Type) where
  capacity : ℕ
  items : Deque α capacity
  /-- The discarded items that are not reported yet. -/
  dropped : ℕ
  closed : Option String
  capacity_pos : 0 < capacity

namespace DropBuffer

variable {α : Type}

def new (capacity : ℕ) (h : 0 < capacity) : DropBuffer α := ⟨capacity, .empty, 0, none, h⟩

def push (b : DropBuffer α) (item : α) : DropBuffer α :=
  if b.capacity ≤ b.items.items.length then
    { b with
      dropped := Counter.addUpTo u64Max b.dropped b.items.items.length
      items := Deque.empty.pushBack item }
  else { b with items := b.items.pushBack item }

def close (b : DropBuffer α) (error : String) : DropBuffer α := { b with closed := some error }

/-- What `next` finds when it looks into the buffer. -/
def next (b : DropBuffer α) : Option (BufferEvent α) × DropBuffer α :=
  if 0 < b.dropped then (some (.overflow b.dropped), { b with dropped := 0 })
  else
    match b.items.items with
    | item :: _ => (some (.item item), { b with items := b.items.popFront })
    | [] =>
      match b.closed with
      | some error => (some (.closed error), { b with closed := none })
      | none => (none, b)

end DropBuffer

inductive BufferAction (α : Type)
  | push (item : α)
  | close (error : String)
  | next
  deriving DecidableEq, Repr

namespace DropBuffer

variable {α : Type}

def step (b : DropBuffer α) : BufferAction α → Option (DropBuffer α)
  | .push item => some (b.push item)
  | .close error => some (b.close error)
  | .next => some b.next.2

def returned (b : DropBuffer α) : BufferAction α → List (BufferEvent α)
  | .next => b.next.1.toList
  | _ => []

def pushedItem : BufferAction α → Option α
  | .push item => some item
  | _ => none

/-- The items pushed, in order. -/
def pushed (actions : List (BufferAction α)) : List α := actions.filterMap pushedItem

/-- The action does not saturate the counter. -/
def counts (b : DropBuffer α) : BufferAction α → Bool
  | .push _ => b.items.items.length < b.capacity || b.dropped + b.items.items.length ≤ u64Max
  | _ => true

/-- What an event tells about the pushed items. -/
def report? : BufferEvent α → Option (Report α)
  | .item a => some (.item a)
  | .overflow dropped => some (.lost dropped)
  | .closed _ => none

def reports (events : List (BufferEvent α)) : List (Report α) := events.filterMap report?

/-! ## The account of a buffer -/

/-- The events tell of the items pushed first. Those not told yet are lost, and counted, or
still in the buffer. -/
structure Accounts (all : List α) (events : List (BufferEvent α)) (b : DropBuffer α) : Prop where
  told : ∃ told gone, all = told ++ gone ++ b.items.items ∧ gone.length = b.dropped ∧
    Tells (reports events) told

theorem accounts_new (capacity : ℕ) (h : 0 < capacity) : Accounts [] [] (new (α := α) capacity h) :=
  ⟨[], [], rfl, rfl, .nil⟩

variable {b b' : DropBuffer α} {all : List α} {events : List (BufferEvent α)}

theorem items_pushBack_empty {cap : ℕ} (h : 0 < cap) (a : α) :
    ((Deque.empty : Deque α cap).pushBack a).items = [a] := by
  have hroom : (Deque.empty : Deque α cap).isFull = false := by
    simp [Deque.isFull]
    omega
  rw [Deque.pushBack_items hroom, Deque.items_empty, List.nil_append]

theorem Accounts.push (h : Accounts all events b) (a : α) (hcount : b.counts (.push a) = true) :
    Accounts (all ++ [a]) events (b.push a) := by
  obtain ⟨told, gone, hall, hgone, htells⟩ := h.told
  have hle := b.items.length_le
  simp only [counts, Bool.or_eq_true, decide_eq_true_eq] at hcount
  unfold DropBuffer.push
  split_ifs with hfull
  · -- the backlog joins the items lost before
    refine ⟨told, gone ++ b.items.items, ?_, ?_, htells⟩
    · simp only [items_pushBack_empty b.capacity_pos, hall, List.append_assoc]
    · have hexact := Counter.addUpTo_of_le (hcount.resolve_left (by omega))
      simp only [hexact, List.length_append, hgone]
  · have hroom : b.items.isFull = false := by
      simp [Deque.isFull]
      omega
    refine ⟨told, gone, ?_, hgone, htells⟩
    simp only [Deque.pushBack_items hroom, hall, List.append_assoc]

theorem Accounts.close (h : Accounts all events b) (error : String) :
    Accounts all events (b.close error) := h.told.elim fun told ⟨gone, hrest⟩ => ⟨told, gone, hrest⟩

theorem Accounts.next (h : Accounts all events b) :
    Accounts all (events ++ b.next.1.toList) b.next.2 := by
  obtain ⟨told, gone, hall, hgone, htells⟩ := h.told
  have hreports (e : BufferEvent α) : reports (events ++ [e]) = reports events ++ (report? e).toList := by
    cases e <;> simp [reports, report?]
  unfold DropBuffer.next
  split_ifs with hdropped
  · refine ⟨told ++ gone, [], by simpa using hall, rfl, ?_⟩
    have hne : gone ≠ [] := List.ne_nil_of_length_pos (by omega)
    have hloss := htells.lost hne
    rw [hgone] at hloss
    simpa only [Option.toList_some, hreports, report?] using hloss
  · have hnil : gone = [] := List.length_eq_zero_iff.mp (by omega)
    subst hnil
    cases hitems : b.items.items with
    | cons a rest =>
      refine ⟨told ++ [a], [], ?_, by simpa using hgone, ?_⟩
      · simp [Deque.popFront, hall, hitems]
      · simpa only [Option.toList_some, hreports, report?] using htells.item a
    | nil =>
      rw [hitems] at hall
      cases hclosed : b.closed with
      | some error =>
        refine ⟨told, [], by simpa [hitems] using hall, hgone, ?_⟩
        simpa [hreports, report?] using htells
      | none =>
        refine ⟨told, [], by simpa [hitems] using hall, hgone, ?_⟩
        simpa using htells

theorem Accounts.step (h : Accounts all events b) {a : BufferAction α} (hcount : b.counts a = true)
    (hstep : b.step a = some b') :
    Accounts (all ++ (pushedItem a).toList) (events ++ b.returned a) b' := by
  cases a with
  | push item =>
    cases hstep
    simpa [pushedItem, returned] using h.push item hcount
  | close error =>
    cases hstep
    simpa [pushedItem, returned] using h.close error
  | next =>
    cases hstep
    simpa [pushedItem, returned] using h.next

theorem run_accounts {actions : List (BufferAction α)} (h : Accounts all events b)
    (hcount : Runs.along step counts b actions = true) :
    ∃ b', Runs.run step b actions = some b' ∧
      Accounts (all ++ pushed actions) (events ++ Runs.log step returned b actions) b' := by
  induction actions generalizing b all events with
  | nil => exact ⟨b, rfl, by simpa [pushed, Runs.log] using h⟩
  | cons a actions ih =>
    obtain ⟨b₁, hb₁⟩ : ∃ b₁, b.step a = some b₁ := by cases a <;> exact ⟨_, rfl⟩
    simp only [Runs.along, hb₁, Bool.and_eq_true] at hcount
    obtain ⟨b', hrun, hb'⟩ := ih (h.step hcount.1 hb₁) hcount.2
    refine ⟨b', Runs.run_cons.mpr ⟨b₁, hb₁, hrun⟩, ?_⟩
    have hpushed : pushed (a :: actions) = (pushedItem a).toList ++ pushed actions := by
      cases hitem : pushedItem a <;> simp [pushed, hitem]
    simpa only [Runs.log, hb₁, hpushed, List.append_assoc] using hb'

theorem drained_of_closed {error : String} (h : b.next.1 = some (.closed error)) :
    b.items.items = [] ∧ b.dropped = 0 := by
  unfold DropBuffer.next at h
  split_ifs at h with hdropped
  · cases h
  · cases hitems : b.items.items with
    | cons a rest =>
      rw [hitems] at h
      cases h
    | nil => exact ⟨rfl, by omega⟩

theorem next_eq_none : b.next.1 = none ↔ b.dropped = 0 ∧ b.items.items = [] ∧ b.closed = none := by
  unfold DropBuffer.next
  split_ifs with hdropped
  · simp only [false_iff]
    exact fun h => absurd h.1 (by omega)
  · have hzero : b.dropped = 0 := by omega
    cases hitems : b.items.items with
    | cons a rest => simp
    | nil => cases hclosed : b.closed <;> simp [hzero]

/-- How many events about items are due. -/
def due (b : DropBuffer α) : ℕ := b.items.items.length + min b.dropped 1

/-- A drain is one event nearer to the end. -/
theorem due_next : b.next.2.due = b.due - 1 := by
  unfold DropBuffer.next
  split_ifs with hdropped
  · change b.items.items.length + min 0 1 = b.items.items.length + min b.dropped 1 - 1
    omega
  · cases hitems : b.items.items with
    | cons a rest =>
      change b.items.items.tail.length + min b.dropped 1 = b.items.items.length + min b.dropped 1 - 1
      rw [hitems, List.tail_cons, List.length_cons]
      omega
    | nil =>
      have hnone : b.due = 0 := by
        rw [due, hitems, List.length_nil]
        omega
      cases hclosed : b.closed with
      | some error => exact hnone.trans (by rw [hnone])
      | none => exact hnone.trans (by rw [hnone])

/-- Enough drains tell everything. -/
theorem Accounts.drained (h : Accounts all events b) {n : ℕ} (hn : b.due ≤ n) :
    Tells (reports (events ++ Runs.log DropBuffer.step returned b (List.replicate n .next))) all := by
  induction n generalizing b events with
  | zero =>
    obtain ⟨told, gone, hall, hgone, htells⟩ := h.told
    unfold due at hn
    have hitems : b.items.items = [] := List.length_eq_zero_iff.mp (by omega)
    have hnil : gone = [] := List.length_eq_zero_iff.mp (by omega)
    rw [hnil, hitems, List.append_nil, List.append_nil] at hall
    rw [List.replicate_zero, Runs.log, List.append_nil, hall]
    exact htells
  | succ n ih =>
    have hrest : b.next.2.due ≤ n := by
      rw [due_next]
      omega
    have hnext := ih h.next hrest
    rw [List.append_assoc] at hnext
    exact hnext

theorem step_capacity {a : BufferAction α} (h : b.step a = some b') : b'.capacity = b.capacity := by
  cases a with
  | push item =>
    cases h
    unfold DropBuffer.push
    split_ifs <;> rfl
  | close error =>
    cases h
    rfl
  | next =>
    cases h
    unfold DropBuffer.next
    split_ifs
    · rfl
    · split
      · rfl
      · split <;> rfl

theorem run_capacity {actions : List (BufferAction α)} (h : Runs.run step b actions = some b') :
    b'.capacity = b.capacity := by
  induction actions generalizing b with
  | nil =>
    cases h
    rfl
  | cons a actions ih =>
    obtain ⟨b₁, hstep, hrest⟩ := Runs.run_cons.mp h
    rw [ih hrest, step_capacity hstep]

end DropBuffer

open DropBuffer

variable {α : Type}

/-- As long as the counter does not saturate, the events of any interleaving cut the pushed items
into consecutive pieces, one item returned or a number of items lost, up to the items lost and
not reported and those in the buffer. An overflow is reported behind every item returned from
before the loss and in front of every item from after it, and the buffer is closed when there is
nothing left to tell. A drain waits only when nothing is buffered, lost or closed, so that drains
tell everything. -/
theorem drop_buffer_accounts (capacity : ℕ) (hcapacity : 0 < capacity) (actions : List (BufferAction α))
    (hcount : Runs.along step counts (new capacity hcapacity) actions = true) :
    ∃ b, Runs.run step (new capacity hcapacity) actions = some b ∧
      let events := Runs.log step returned (new capacity hcapacity) actions
      (∃ told gone, pushed actions = told ++ gone ++ b.items.items ∧ gone.length = b.dropped ∧
        Tells (reports events) told) ∧
      (LossReport.items (reports events)).Sublist (pushed actions) ∧
      (∀ before dropped after, events = before ++ .overflow dropped :: after →
        ∃ earlier gone later, pushed actions = earlier ++ gone ++ later ∧ gone.length = dropped ∧
          Tells (reports before) earlier ∧ (LossReport.items (reports after)).Sublist later) ∧
      b.items.items.length ≤ capacity ∧
      (∀ error, b.next.1 = some (.closed error) →
        b.items.items = [] ∧ b.dropped = 0 ∧ Tells (reports events) (pushed actions)) ∧
      (b.next.1 = none ↔ b.dropped = 0 ∧ b.items.items = [] ∧ b.closed = none) ∧
      Tells (reports (events ++ Runs.log step returned b (List.replicate (b.items.items.length + 1) .next)))
        (pushed actions) := by
  obtain ⟨b, hrun, haccounts⟩ := run_accounts (accounts_new capacity hcapacity) hcount
  rw [List.nil_append, List.nil_append] at haccounts
  obtain ⟨told, gone, hall, hgone, htells⟩ := haccounts.told
  refine ⟨b, hrun, ⟨told, gone, hall, hgone, htells⟩, ?_, ?_, ?_, ?_, next_eq_none, ?_⟩
  · rw [hall, List.append_assoc]
    exact htells.items_sublist.trans (List.sublist_append_left told _)
  · intro before dropped after hevents
    have hsplit : reports (before ++ .overflow dropped :: after) =
        reports before ++ .lost dropped :: reports after := by
      simp [reports, report?]
    rw [hevents, hsplit] at htells
    obtain ⟨earlier, gone', later, rfl, hgone', hbefore, hafter⟩ := htells.around_loss
    refine ⟨earlier, gone', later ++ (gone ++ b.items.items), ?_, hgone', hbefore, ?_⟩
    · rw [hall]
      simp only [List.append_assoc]
    · exact hafter.items_sublist.trans (List.sublist_append_left later _)
  · have hcap : b.capacity = capacity := run_capacity hrun
    exact Nat.le_trans b.items.length_le (Nat.le_of_eq hcap)
  · intro error hclosed
    obtain ⟨hitems, hdropped⟩ := drained_of_closed hclosed
    rw [hdropped, List.length_eq_zero_iff] at hgone
    rw [hgone, hitems, List.append_nil, List.append_nil] at hall
    rw [hall]
    exact ⟨hitems, hdropped, htells⟩
  · refine haccounts.drained ?_
    unfold due
    omega

/-- Two items are lost, the third is returned behind the report, then the buffer is closed. -/
def overflowActions : List (BufferAction ℕ) :=
  [.push 1, .push 2, .push 3, .close "gone", .next, .next, .next]

theorem drop_buffer_accounts_overflow :
    Runs.log step returned (new 2 (by decide)) overflowActions =
      [.overflow 2, .item 3, .closed "gone"] ∧
    ∃ b, Runs.run step (new 2 (by decide)) overflowActions = some b ∧ b.items.items.length ≤ 2 := by
  obtain ⟨b, hrun, -, -, -, hle, -⟩ := drop_buffer_accounts 2 (by decide) overflowActions (by decide)
  exact ⟨by decide, b, hrun, hle⟩

end Canopen.Canwsd
