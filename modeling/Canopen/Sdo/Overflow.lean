import Canopen.Lib.Deque
import Canopen.Lib.Runs
import Canopen.Transport

/-!
# Overflow of a port

The port for the transfers with one node (`SdoPort` in `can_router.rs`). Frames that are not on
the response COB-ID of the node are put aside for the caller, who takes them between two
transfers. The buffer keeps the oldest of them, and the others are counted.
-/

namespace Canopen

/-- The transport of the port is left out: what it hands out is an input of `receive`. -/
structure SdoPort where
  responseCob : UInt16
  overflow : Deque CanFrame 16
  overflowDropped : UInt32
  deriving DecidableEq, Repr

namespace SdoPort

def new (target : NodeId) : SdoPort := ⟨CobId.sdoTx target, .empty, 0⟩

def drainOverflow (p : SdoPort) : SdoPort × List CanFrame := ({ p with overflow := .empty }, p.overflow.items)

def clearOverflow (p : SdoPort) : SdoPort := { p with overflow := .empty }

/-- A frame that does not match. -/
def putAside (p : SdoPort) (frame : CanFrame) : SdoPort :=
  if p.overflow.isFull then { p with overflowDropped := Counter.saturatingAdd p.overflowDropped 1 }
  else { p with overflow := p.overflow.pushBack frame }

/-- `none` where the transport has nothing more for the call. -/
def receive (p : SdoPort) : List CanFrame → SdoPort × Option CanFrame
  | [] => (p, none)
  | frame :: frames => if frame.id == p.responseCob then (p, some frame) else (p.putAside frame).receive frames

end SdoPort

/-- What is done with a port; a call of `receive` is given the frames the transport has for it. -/
inductive PortAction
  | receive (frames : List CanFrame)
  | drainOverflow
  | clearOverflow
  deriving DecidableEq, Repr

def SdoPort.act (p : SdoPort) : PortAction → SdoPort
  | .receive frames => (p.receive frames).1
  | .drainOverflow => p.drainOverflow.1
  | .clearOverflow => p.clearOverflow

/-- A port without bounds: all frames put aside since the buffer was emptied, and how many had no
room before. -/
structure Aside where
  waiting : List CanFrame
  lost : ℕ
  deriving DecidableEq, Repr

namespace Aside

/-- The frames that do not fit into a buffer. -/
def excess (a : Aside) : ℕ := a.waiting.length - 16

def empty (a : Aside) : Aside := ⟨[], a.lost + a.excess⟩

def act (responseCob : UInt16) (a : Aside) : PortAction → Aside
  | .receive frames => { a with waiting := a.waiting ++ frames.takeWhile (·.id != responseCob) }
  | .drainOverflow | .clearOverflow => a.empty

end Aside

namespace SdoPort

/-- The buffer holds the oldest frames, and the counter counts the others up to its limit. -/
structure Keeps (p : SdoPort) (a : Aside) : Prop where
  items : p.overflow.items = a.waiting.take 16
  dropped : p.overflowDropped.toNat = min (a.lost + a.excess) 0xFFFFFFFF

theorem Keeps.putAside {p : SdoPort} {a : Aside} (h : p.Keeps a) (frame : CanFrame) :
    (p.putAside frame).Keeps { a with waiting := a.waiting ++ [frame] } := by
  have hdropped := h.dropped
  have hlen : p.overflow.items.length = min 16 a.waiting.length := by rw [h.items, List.length_take]
  unfold SdoPort.putAside
  by_cases hfull : p.overflow.isFull = true
  · have hmany : 16 ≤ a.waiting.length := by
      have h16 : p.overflow.items.length = 16 := beq_iff_eq.mp hfull
      omega
    rw [if_pos hfull]
    refine ⟨?_, ?_⟩
    · rw [List.take_append_of_le_length hmany]
      exact h.items
    · have hsum := Counter.toNat_saturatingAdd p.overflowDropped 1
      have hone : (1 : UInt32).toNat = 1 := rfl
      simp only [Aside.excess, List.length_append, List.length_singleton] at hdropped ⊢
      omega
  · have hroom : a.waiting.length < 16 := by
      have hne : p.overflow.items.length ≠ 16 := fun heq => hfull (beq_iff_eq.mpr heq)
      omega
    rw [if_neg hfull]
    refine ⟨?_, ?_⟩
    · have hlong : (a.waiting ++ [frame]).length ≤ 16 := by
        rw [List.length_append, List.length_singleton]
        exact hroom
      rw [Deque.pushBack_items (Bool.eq_false_iff.mpr hfull), h.items, List.take_of_length_le hroom.le,
        List.take_of_length_le hlong]
    · simp only [Aside.excess, List.length_append, List.length_singleton] at hdropped ⊢
      omega

@[simp] theorem putAside_responseCob (p : SdoPort) (frame : CanFrame) :
    (p.putAside frame).responseCob = p.responseCob := by
  unfold putAside
  split <;> rfl

/-- A call gets the first frame on its COB-ID, and everything before it is put aside. -/
theorem receive_spec {p : SdoPort} {a : Aside} (h : p.Keeps a) (frames : List CanFrame) :
    (p.receive frames).2 = frames.find? (·.id == p.responseCob) ∧
      (p.receive frames).1.responseCob = p.responseCob ∧
      (p.receive frames).1.Keeps { a with waiting := a.waiting ++ frames.takeWhile (·.id != p.responseCob) } := by
  induction frames generalizing p a with
  | nil => exact ⟨rfl, rfl, by rwa [List.takeWhile_nil, List.append_nil]⟩
  | cons frame frames ih =>
    unfold receive
    by_cases hmine : (frame.id == p.responseCob) = true
    · have hstop : ¬(frame.id != p.responseCob) = true := by simpa using hmine
      rw [if_pos hmine, List.find?_cons_of_pos (p := fun f : CanFrame => f.id == p.responseCob) hmine,
        List.takeWhile_cons_of_neg (p := fun f : CanFrame => f.id != p.responseCob) hstop, List.append_nil]
      exact ⟨rfl, rfl, h⟩
    · have hgoes : (frame.id != p.responseCob) = true := by simpa using hmine
      obtain ⟨hfound, hcob, hkeeps⟩ := ih (h.putAside frame)
      rw [putAside_responseCob] at hfound hcob hkeeps
      rw [List.append_assoc, List.singleton_append] at hkeeps
      rw [if_neg hmine, List.find?_cons_of_neg (p := fun f : CanFrame => f.id == p.responseCob) hmine,
        List.takeWhile_cons_of_pos (p := fun f : CanFrame => f.id != p.responseCob) hgoes]
      exact ⟨hfound, hcob, hkeeps⟩

theorem Keeps.emptied {p : SdoPort} {a : Aside} (h : p.Keeps a) : p.clearOverflow.Keeps a.empty :=
  ⟨rfl, h.dropped⟩

theorem Keeps.act {p : SdoPort} {a : Aside} (h : p.Keeps a) (action : PortAction) :
    (p.act action).responseCob = p.responseCob ∧ (p.act action).Keeps (a.act p.responseCob action) := by
  cases action with
  | receive frames => exact (receive_spec h frames).2
  | drainOverflow => exact ⟨rfl, h.emptied⟩
  | clearOverflow => exact ⟨rfl, h.emptied⟩

theorem Keeps.acts {p : SdoPort} {a : Aside} (h : p.Keeps a) (actions : List PortAction) :
    (actions.foldl SdoPort.act p).responseCob = p.responseCob ∧
      (actions.foldl SdoPort.act p).Keeps (actions.foldl (Aside.act p.responseCob) a) := by
  induction actions generalizing p a with
  | nil => exact ⟨rfl, h⟩
  | cons action actions ih =>
    obtain ⟨hcob, hnext⟩ := h.act action
    have hrest := ih hnext
    rw [hcob] at hrest
    exact hrest

/-- Whatever is done with a port, the next drain hands out the oldest sixteen of the frames that
were put aside since the last one, in their order, and the counter has counted all others, up to
its limit. The next call of `receive` gets the first frame on the COB-ID of the node. -/
theorem overflow_keeps_oldest (target : NodeId) (actions : List PortAction) :
    let p := actions.foldl act (new target)
    let a := actions.foldl (Aside.act (CobId.sdoTx target)) ⟨[], 0⟩
    p.drainOverflow.2 = a.waiting.take 16 ∧ p.overflowDropped.toNat = min (a.lost + a.excess) 0xFFFFFFFF ∧
      ∀ frames, (p.receive frames).2 = frames.find? (·.id == CobId.sdoTx target) := by
  have hnew : (new target).Keeps ⟨[], 0⟩ := ⟨rfl, rfl⟩
  obtain ⟨hcob, hkeeps⟩ := hnew.acts actions
  refine ⟨hkeeps.items, hkeeps.dropped, fun frames => ?_⟩
  rw [(receive_spec hkeeps frames).1, hcob]
  rfl

end SdoPort
end Canopen
