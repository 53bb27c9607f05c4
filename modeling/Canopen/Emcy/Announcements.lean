import Canopen.Emcy
import Canopen.Lib.ByteBits

/-!
# Announcements

What an emergency producer (`emcy.rs`) has announced over a sequence of calls, against
its error register and its bounded queue.
-/

namespace Canopen

open LittleEndian

/-- A call on the producer. -/
inductive EmcyCall
  | setError (errorCode : UInt16) (registerBits : UInt8) (vendorData : List UInt8)
  | clearError (registerBits : UInt8)
  | clearAll
  | takePending
  deriving DecidableEq, Repr

/-- The "error reset / no error" message: code 0 and register 0. -/
def CanFrame.isErrorReset (frame : CanFrame) : Bool := frame.data.take 3 == [0, 0, 0]

namespace EmcyProducer

def act (p : EmcyProducer) : EmcyCall → EmcyProducer
  | .setError code bits data => p.setError code bits data
  | .clearError bits => p.clearError bits
  | .clearAll => p.clearAll
  | .takePending => p.takePending

def announcement (p : EmcyProducer) : EmcyCall → Option CanFrame
  | .setError code bits data =>
    some (buildEmcyFrame p.nodeId code (p.errorRegister ||| (bits ||| errorGeneric)) data)
  | .clearError bits =>
    if p.errorRegister ≠ 0 ∧ (p.clearError bits).errorRegister = 0 then
      some (buildEmcyFrame p.nodeId 0 0 [])
    else none
  | .clearAll => some (buildEmcyFrame p.nodeId 0 0 [])
  | .takePending => none

def taking (p : EmcyProducer) : EmcyCall → Option CanFrame
  | .takePending => p.peekPending
  | _ => none

def after (p : EmcyProducer) (calls : List EmcyCall) : EmcyProducer := calls.foldl act p

/-- The announcements queued over a sequence of calls, in order. -/
def queued (p : EmcyProducer) : List EmcyCall → List CanFrame
  | [] => []
  | c :: calls => (p.announcement c).toList ++ queued (p.act c) calls

/-- The announcements taken over a sequence of calls, in order. -/
def taken (p : EmcyProducer) : List EmcyCall → List CanFrame
  | [] => []
  | c :: calls => (p.taking c).toList ++ taken (p.act c) calls

/-! ## The register -/

/-- GENERIC is set with every other category. -/
def GenericSet (register : UInt8) : Prop := register ≠ 0 → register &&& errorGeneric = errorGeneric

theorem or_generic (register : UInt8) :
    GenericSet (register ||| errorGeneric) ∧ register ||| errorGeneric ≠ 0 := by
  have hbyte := ByteBits.forall_byte (q := fun r => (r ||| errorGeneric) &&& errorGeneric == errorGeneric &&
    r ||| errorGeneric != 0) (by decide) register
  rw [Bool.and_eq_true, beq_iff_eq, bne_iff_ne] at hbyte
  exact ⟨fun _ => hbyte.1, hbyte.2⟩

theorem genericSet_of_alone {register : UInt8} (h : register &&& ~~~errorGeneric = 0) :
    GenericSet register := by
  have hbyte := ByteBits.forall_byte (q := fun r => r &&& ~~~errorGeneric != 0 || r == 0 ||
    r &&& errorGeneric == errorGeneric) (by decide) register
  intro hne
  simpa [h, hne] using hbyte

/-- The register `clear_error` leaves. -/
def clearedRegister (before bits : UInt8) : UInt8 :=
  if before &&& ~~~bits &&& ~~~errorGeneric ≠ 0 then before &&& ~~~bits ||| errorGeneric
  else if before &&& bits &&& ~~~errorGeneric ≠ 0 then 0
  else before &&& ~~~bits

theorem clearedRegister_generic (before bits : UInt8) : GenericSet (clearedRegister before bits) := by
  unfold clearedRegister
  by_cases hrest : before &&& ~~~bits &&& ~~~errorGeneric ≠ 0
  · rw [if_pos hrest]
    exact (or_generic _).1
  · rw [if_neg hrest]
    split_ifs
    · intro hne
      exact absurd rfl hne
    · exact genericSet_of_alone (not_not.mp hrest)

theorem clearedRegister_zero (bits : UInt8) : clearedRegister 0 bits = 0 := by
  simp [clearedRegister]

theorem clearError_eq (p : EmcyProducer) (bits : UInt8) :
    p.clearError bits =
      if p.errorRegister ≠ 0 ∧ clearedRegister p.errorRegister bits = 0 then
        { p with errorRegister := clearedRegister p.errorRegister bits }.queue
          (buildEmcyFrame p.nodeId 0 0 [])
      else { p with errorRegister := clearedRegister p.errorRegister bits } := rfl

theorem clearError_register (p : EmcyProducer) (bits : UInt8) :
    (p.clearError bits).errorRegister = clearedRegister p.errorRegister bits := by
  rw [clearError_eq]
  split_ifs <;> rfl

/-! ## The last announcement -/

theorem isErrorReset_of_register {node : NodeId} {code : UInt16} {register : UInt8}
    {data : List UInt8} (h : register ≠ 0) :
    (buildEmcyFrame node code register data).isErrorReset = false := by
  simp [CanFrame.isErrorReset, buildEmcyFrame, leBytes16, h]

/-- The register is zero exactly when nothing was announced or the last announcement was
an error reset. -/
def Announced (register : UInt8) (queued : List CanFrame) : Prop :=
  register = 0 ↔ queued = [] ∨ ∃ frame, queued.getLast? = some frame ∧ frame.isErrorReset = true

theorem announced_concat {register : UInt8} {queued : List CanFrame} {frame : CanFrame}
    (h : register = 0 ↔ frame.isErrorReset = true) : Announced register (queued ++ [frame]) := by
  unfold Announced
  simp [h]

/-- What a call does. -/
inductive Acts (p : EmcyProducer) : EmcyCall → EmcyProducer → Prop
  | announce {c : EmcyCall} {register : UInt8} {frame : CanFrame}
    (h : p.announcement c = some frame) (ht : p.taking c = none)
    (hreset : register = 0 ↔ frame.isErrorReset = true) (hgeneric : GenericSet register) :
    Acts p c ({ p with errorRegister := register }.queue frame)
  | silent {c : EmcyCall} {register : UInt8} (h : p.announcement c = none) (ht : p.taking c = none)
    (hzero : register = 0 ↔ p.errorRegister = 0) (hgeneric : GenericSet register) :
    Acts p c { p with errorRegister := register }
  | take : Acts p .takePending p.takePending

theorem act_acts (p : EmcyProducer) (c : EmcyCall) : Acts p c (p.act c) := by
  cases c with
  | setError code bits data =>
    have hor := or_generic (p.errorRegister ||| bits)
    rw [UInt8.or_assoc] at hor
    refine .announce rfl rfl ?_ hor.1
    rw [isErrorReset_of_register hor.2]
    exact ⟨fun hzero => absurd hzero hor.2, fun hfalse => by cases hfalse⟩
  | clearError bits =>
    have hgeneric := clearedRegister_generic p.errorRegister bits
    change Acts p (.clearError bits) (p.clearError bits)
    rw [clearError_eq]
    by_cases hend : p.errorRegister ≠ 0 ∧ clearedRegister p.errorRegister bits = 0
    · rw [if_pos hend]
      refine .announce ?_ rfl ?_ hgeneric
      · rw [announcement, clearError_register, if_pos hend]
      · exact ⟨fun _ => rfl, fun _ => hend.2⟩
    · rw [if_neg hend]
      refine .silent ?_ rfl ?_ hgeneric
      · rw [announcement, clearError_register, if_neg hend]
      · constructor
        · intro hzero
          by_contra hne
          exact hend ⟨hne, hzero⟩
        · intro hzero
          rw [hzero, clearedRegister_zero]
  | clearAll =>
    refine .announce rfl rfl ⟨fun _ => rfl, fun _ => rfl⟩ ?_
    intro hne
    exact absurd rfl hne
  | takePending => exact .take

/-! ## The queue -/

/-- The queue holds the last four announcements, less those of them taken already, and
what is older was taken or dropped. -/
def HoldsRecent (queued taken pending : List CanFrame) : Prop :=
  ∃ old recent, queued = old ++ (recent ++ pending) ∧
    (recent ++ pending).length = min 4 queued.length ∧ recent <:+ taken ∧ taken.Sublist (old ++ recent)

theorem HoldsRecent.push {queued taken : List CanFrame} {pending : Deque CanFrame 4}
    (h : HoldsRecent queued taken pending.items) (frame : CanFrame) :
    HoldsRecent (queued ++ [frame]) taken (pending.pushEvict frame).items := by
  obtain ⟨old, recent, rfl, hlen, hsuffix, hsub⟩ := h
  have hlen' := hlen
  simp only [List.length_append] at hlen'
  rw [pending.pushEvict_items (by decide)]
  by_cases hfull : pending.isFull = true
  · -- the oldest pending frame is dropped
    rw [if_pos hfull]
    have hfour : pending.items.length = 4 := by simpa [Deque.isFull] using hfull
    have hnone : recent = [] := List.length_eq_zero_iff.mp (by omega)
    subst hnone
    cases hitems : pending.items with
    | nil =>
      rw [hitems] at hfour
      cases hfour
    | cons x rest =>
      rw [hitems, List.length_cons] at hfour
      refine ⟨old ++ [x], [], by simp, ?_, List.nil_suffix, ?_⟩
      · simp
        omega
      · rw [List.append_nil] at hsub ⊢
        exact hsub.trans (List.sublist_append_left old [x])
  · rw [if_neg hfull]
    have hroom : pending.items.length < 4 := by
      have hle := pending.length_le
      have hne : pending.items.length ≠ 4 := by simpa [Deque.isFull] using hfull
      omega
    by_cases hfour : recent.length + pending.items.length = 4
    · -- the oldest of the last four was taken already
      cases recent with
      | nil =>
        rw [List.length_nil] at hfour
        omega
      | cons r recent =>
        rw [List.length_cons] at hfour
        refine ⟨old ++ [r], recent, by simp, ?_, ?_, ?_⟩
        · simp
          omega
        · exact (List.suffix_cons r recent).trans hsuffix
        · rw [List.append_assoc]
          exact hsub
    · have hnone : old = [] := List.length_eq_zero_iff.mp (by omega)
      subst hnone
      refine ⟨[], recent, by simp, ?_, hsuffix, hsub⟩
      simp
      omega

theorem HoldsRecent.take {queued taken : List CanFrame} {pending : Deque CanFrame 4}
    (h : HoldsRecent queued taken pending.items) :
    HoldsRecent queued (taken ++ pending.items.head?.toList) pending.popFront.items := by
  obtain ⟨old, recent, rfl, hlen, hsuffix, hsub⟩ := h
  change HoldsRecent _ _ pending.items.tail
  cases hitems : pending.items with
  | nil =>
    rw [hitems] at hlen
    refine ⟨old, recent, rfl, hlen, ?_, ?_⟩
    · rw [List.head?_nil, Option.toList_none, List.append_nil]
      exact hsuffix
    · rw [List.head?_nil, Option.toList_none, List.append_nil]
      exact hsub
  | cons frame rest =>
    rw [hitems] at hlen
    refine ⟨old, recent ++ [frame], by simp, ?_, ?_, ?_⟩
    · rw [List.append_assoc]
      exact hlen
    · obtain ⟨gone, rfl⟩ := hsuffix
      exact ⟨gone, by simp⟩
    · rw [← List.append_assoc]
      exact hsub.append_right [frame]

/-- Every announcement was taken, dropped, or is pending; the counter of dropped ones
saturates. -/
def CountsDropped (queued taken : List CanFrame) (p : EmcyProducer) : Prop :=
  taken.length + p.pending.items.length ≤ queued.length ∧
    p.dropped.toNat = min (queued.length - taken.length - p.pending.items.length) 0xFFFFFFFF

theorem CountsDropped.queue {queued taken : List CanFrame} {p : EmcyProducer}
    (h : CountsDropped queued taken p) (frame : CanFrame) :
    CountsDropped (queued ++ [frame]) taken (p.queue frame) := by
  obtain ⟨hle, hdropped⟩ := h
  have hitems : (p.queue frame).pending.items =
      (if p.pending.isFull then p.pending.items.tail else p.pending.items) ++ [frame] :=
    p.pending.pushEvict_items (by decide) frame
  unfold CountsDropped
  rw [hitems, List.length_append, List.length_append, List.length_singleton]
  unfold EmcyProducer.queue
  by_cases hfull : p.pending.isFull = true
  · have hfour : p.pending.items.length = 4 := by simpa [Deque.isFull] using hfull
    simp only [hfull, if_true, List.length_tail]
    rw [UInt32.toNat_ofNat_of_lt' (by simp only [UInt32.size]; omega)]
    omega
  · simp only [hfull, Bool.false_eq_true, if_false]
    omega

theorem CountsDropped.take {queued taken : List CanFrame} {p : EmcyProducer}
    (h : CountsDropped queued taken p) :
    CountsDropped queued (taken ++ p.peekPending.toList) p.takePending := by
  obtain ⟨hle, hdropped⟩ := h
  change (taken ++ p.pending.items.head?.toList).length + p.pending.items.tail.length ≤ _ ∧
    p.dropped.toNat = min (_ - (taken ++ p.pending.items.head?.toList).length -
      p.pending.items.tail.length) _
  cases hitems : p.pending.items with
  | nil =>
    rw [hitems] at hle hdropped
    rw [List.head?_nil, Option.toList_none, List.append_nil]
    exact ⟨hle, hdropped⟩
  | cons frame rest =>
    rw [hitems, List.length_cons] at hle hdropped
    rw [List.head?_cons, Option.toList_some, List.length_append, List.length_singleton,
      List.tail_cons]
    omega

/-- What is known of a producer after a sequence of calls. -/
structure Accounts (queued taken : List CanFrame) (p : EmcyProducer) : Prop where
  generic : GenericSet p.errorRegister
  announced : Announced p.errorRegister queued
  pending : HoldsRecent queued taken p.pending.items
  dropped : CountsDropped queued taken p

theorem accounts_new (node : NodeId) : Accounts [] [] (new node) where
  generic h := absurd rfl h
  announced := ⟨fun _ => .inl rfl, fun _ => rfl⟩
  pending := ⟨[], [], rfl, rfl, List.nil_suffix, List.Sublist.slnil⟩
  dropped := ⟨Nat.le_refl 0, rfl⟩

theorem Accounts.act {queued taken : List CanFrame} {p : EmcyProducer}
    (h : Accounts queued taken p) (c : EmcyCall) :
    Accounts (queued ++ (p.announcement c).toList) (taken ++ (p.taking c).toList) (p.act c) := by
  have hacts := p.act_acts c
  generalize p.act c = p' at hacts ⊢
  cases hacts with
  | @announce _ register frame hframe htaking hreset hgeneric =>
    rw [hframe, htaking, Option.toList_none, List.append_nil]
    exact ⟨hgeneric, announced_concat hreset, h.pending.push frame, h.dropped.queue frame⟩
  | @silent _ register hnone htaking hzero hgeneric =>
    rw [hnone, htaking, Option.toList_none, List.append_nil, List.append_nil]
    exact ⟨hgeneric, hzero.trans h.announced, h.pending, h.dropped⟩
  | take =>
    rw [announcement, Option.toList_none, List.append_nil]
    exact ⟨h.generic, h.announced, h.pending.take, h.dropped.take⟩

theorem accounts_after (node : NodeId) (calls : List EmcyCall) :
    Accounts ((new node).queued calls) ((new node).taken calls) ((new node).after calls) := by
  have hrun (p : EmcyProducer) (queued taken : List CanFrame) (h : Accounts queued taken p) :
      Accounts (queued ++ p.queued calls) (taken ++ p.taken calls) (p.after calls) := by
    induction calls generalizing p queued taken with
    | nil =>
      rw [EmcyProducer.queued, EmcyProducer.taken, List.append_nil, List.append_nil]
      exact h
    | cons c calls ih =>
      rw [EmcyProducer.queued, EmcyProducer.taken, ← List.append_assoc, ← List.append_assoc]
      exact ih (p.act c) _ _ (h.act c)
  exact hrun (new node) [] [] (accounts_new node)

theorem clearError_announces (p : EmcyProducer) (bits : UInt8) :
    (p.errorRegister ≠ 0 ∧ (p.clearError bits).errorRegister = 0 →
      p.clearError bits = { p with errorRegister := 0 }.queue (buildEmcyFrame p.nodeId 0 0 [])) ∧
    (¬(p.errorRegister ≠ 0 ∧ (p.clearError bits).errorRegister = 0) →
      (p.clearError bits).pending = p.pending ∧ (p.clearError bits).dropped = p.dropped) := by
  rw [clearError_register, clearError_eq]
  constructor
  · intro hend
    rw [if_pos hend, hend.2]
  · intro hend
    rw [if_neg hend]
    exact ⟨rfl, rfl⟩

theorem length_queued_setErrors (p : EmcyProducer) (code : UInt16) (bits : UInt8)
    (data : List UInt8) (k : ℕ) :
    (p.queued (List.replicate k (.setError code bits data))).length = k ∧
      p.taken (List.replicate k (.setError code bits data)) = [] := by
  induction k generalizing p with
  | zero => exact ⟨rfl, rfl⟩
  | succ k ih =>
    obtain ⟨hlen, htaken⟩ := ih (p.act (.setError code bits data))
    rw [List.replicate_succ, queued, taken, List.length_append, hlen, htaken]
    exact ⟨Nat.add_comm 1 k, rfl⟩

/-- More reports than the counter of dropped announcements can tell. -/
def errorStorm : List EmcyCall := List.replicate (2 ^ 32 + 4) (.setError 0x1000 1 [])

theorem dropped_saturates :
    ((new ⟨5, by decide, by decide⟩).after errorStorm).dropped.toNat ≠
      ((new ⟨5, by decide, by decide⟩).queued errorStorm).length -
        ((new ⟨5, by decide, by decide⟩).taken errorStorm).length -
        ((new ⟨5, by decide, by decide⟩).after errorStorm).pending.items.length := by
  have hcount := length_queued_setErrors (new ⟨5, by decide, by decide⟩) 0x1000 1 [] (2 ^ 32 + 4)
  have hpending := ((new ⟨5, by decide, by decide⟩).after errorStorm).pending.length_le
  have hmax := ((new ⟨5, by decide, by decide⟩).after errorStorm).dropped.toNat_lt
  unfold errorStorm at *
  rw [hcount.1, hcount.2, List.length_nil]
  omega

end EmcyProducer
end Canopen
