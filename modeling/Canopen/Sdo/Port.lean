import Canopen.Router
import Canopen.Sdo.Driver

/-!
# Transfers over the demultiplexer

A transfer over the port that the demultiplexer gives out (`DemuxSdoPort` in
`can_router.rs`). The port polls the transport for the driver: frames of others go into the
buffers and do not reach the driver.
-/

namespace Canopen.Sdo

/-- What the transport and the clock answer at one poll of the driver. -/
structure PortWake (E : Type) where
  entered : UInt64
  now : UInt64
  transmit : Poll (Except E Unit)
  /-- The frames that are ready, oldest first. -/
  frames : List CanFrame
  /-- The error behind the frames; without one the transport has to be waited for. -/
  failure : Option E
  timer : Bool
  abort : Poll (Except E Unit)
  deriving DecidableEq, Repr

variable {E R : Type}

/-- The poll as the driver sees it, with the frame that the port lets through. -/
def PortWake.wake (w : PortWake E) (got : Option CanFrame) : Wake E where
  entered := w.entered
  now := w.now
  transmit := w.transmit
  receive :=
    match got, w.failure with
    | some frame, _ => .ready (.ok frame)
    | none, some e => .ready (.error e)
    | none, none => .pending
  timer := w.timer
  abort := w.abort

/-- A transfer and the demultiplexer it borrows. -/
structure PortTransfer (E R : Type) where
  demux : CanDemux
  transfer : DriverState E R

namespace Call

variable (call : Call R)

/-- What the driver waits for. -/
def awaited : Awaited := .sdo call.driver.responseCob

/-- Whether the port is polled for a frame: a wait for a response that is in time. -/
def listens (w : PortWake E) : DriverState E R → Bool
  | .waiting _ .response entered => !expired call.deadline entered (w.wake none)
  | .waiting _ (.request _) _ | .waiting _ (.next _) _ | .finished _ => false

def portFrames (s : PortTransfer E R) (w : PortWake E) : List CanFrame :=
  if call.listens w s.transfer then w.frames else []

def portReceive (s : PortTransfer E R) (w : PortWake E) : CanDemux × Option CanFrame :=
  s.demux.receive call.awaited (call.portFrames s w)

def portPoll (s : PortTransfer E R) (w : PortWake E) : List (Wake E) := [w.wake (call.portReceive s w).2]

def portActions (s : PortTransfer E R) (w : PortWake E) : List DemuxAction :=
  (call.awaited.taken (call.portFrames s w)).map (.hand call.awaited)

def portStep (s : PortTransfer E R) (w : PortWake E) : Option (PortTransfer E R) :=
  (call.step s.transfer (w.wake (call.portReceive s w).2)).map fun transfer => ⟨(call.portReceive s w).1, transfer⟩

variable {call}

/-- The driver is handed what the port lets through, and nothing else. -/
theorem received_passed (s : PortTransfer E R) (w : PortWake E) :
    (call.passed s.transfer (w.wake (call.portReceive s w).2)).filterMap Passed.received? =
      (call.portReceive s w).2.toList := by
  obtain ⟨demux, transfer⟩ := s
  cases transfer with
  | finished result => rfl
  | waiting client wait entered =>
    cases wait with
    | request frame =>
      have hnone : (call.portReceive ⟨demux, .waiting client (.request frame) entered⟩ w).2 = none := rfl
      rw [hnone]
      simp only [passed, poll]
      split <;> rfl
    | next frame =>
      have hnone : (call.portReceive ⟨demux, .waiting client (.next frame) entered⟩ w).2 = none := rfl
      rw [hnone]
      simp only [passed, poll]
      split
      · rfl
      · exact finish_received _
      · rfl
    | response =>
      rcases hgot : (call.portReceive ⟨demux, .waiting client .response entered⟩ w).2 with _ | frame
      · simp only [passed, poll]
        split
        · rfl
        · exact finish_received _
        · rename_i frame hready
          have hanswer := withDeadline_ok hready
          unfold PortWake.wake at hanswer
          cases hfailure : w.failure <;> rw [hfailure] at hanswer <;> cases hanswer
      · have hexpired : expired call.deadline entered (w.wake none) = false := by
          by_contra hlate
          have hlistens : call.listens w (.waiting client .response entered : DriverState E R) = false := by
            rw [listens, Bool.eq_true_of_not_eq_false hlate, Bool.not_true]
          rw [portReceive, portFrames, hlistens] at hgot
          cases hgot
        have hready : withDeadline call.deadline entered (w.wake (some frame)) (w.wake (some frame)).receive =
            .ready (.ok frame) := by
          have hsame : expired call.deadline entered (w.wake (some frame)) = false := hexpired
          unfold withDeadline
          rw [hsame]
          rfl
        have hfirst : Passed.received? (.received frame) = some frame := rfl
        simp only [passed, poll, hready]
        rw [List.filterMap_cons_some hfirst, onReceive_received]
        rfl

theorem answered_of_accepts {frame : CanFrame} (h : call.awaited.accepts frame = true) :
    call.answered frame = true ∧ frame.rawDlc = 8 := by
  obtain ⟨hid, hdlc⟩ := (Bool.and_eq_true _ _).mp h
  exact ⟨hid, beq_iff_eq.mp hdlc⟩

/-- A transfer over the port is a run of the driver and a run of the demultiplexer at once. The
driver is handed exactly the frames that the demultiplexer lets through, all of them full SDO
frames of the server, so neither disturbs the other. -/
theorem transfer_over_port {s₀ s : PortTransfer E R} {wakes : List (PortWake E)}
    (hrun : Runs.run call.portStep s₀ wakes = some s) :
    let polls := Runs.log call.portStep call.portPoll s₀ wakes
    let actions := Runs.log call.portStep call.portActions s₀ wakes
    let handed := (Runs.log call.step call.passed s₀.transfer polls).filterMap Passed.received?
    Runs.run call.step s₀.transfer polls = some s.transfer ∧
      Runs.run CanDemux.step s₀.demux actions = some s.demux ∧
      (Runs.log CanDemux.step CanDemux.entries s₀.demux actions).filterMap DemuxEntry.direct? = handed ∧
      ∀ frame ∈ handed, call.answered frame = true ∧ frame.rawDlc = 8 := by
  induction wakes generalizing s₀ with
  | nil =>
    cases hrun
    exact ⟨rfl, rfl, rfl, List.forall_mem_nil _⟩
  | cons w wakes ih =>
    obtain ⟨s₁, hstep, hrest⟩ := Runs.run_cons.mp hrun
    obtain ⟨hpolls, hactions, hdirect, hall⟩ := ih hrest
    obtain ⟨transfer, htransfer, hs₁⟩ := Option.map_eq_some_iff.mp hstep
    subst hs₁
    have hport : Runs.run CanDemux.step s₀.demux (call.portActions s₀ w) = some (call.portReceive s₀ w).1 ∧
        (Runs.log CanDemux.step CanDemux.entries s₀.demux (call.portActions s₀ w)).filterMap DemuxEntry.direct? =
          (call.portReceive s₀ w).2.toList :=
      s₀.demux.receive_spec call.awaited (call.portFrames s₀ w)
    obtain ⟨hlook, hlooked⟩ := hport
    simp only [Runs.log, hstep]
    have hreceived : (call.passed s₀.transfer (w.wake (call.portReceive s₀ w).2)).filterMap Passed.received? =
        (call.portReceive s₀ w).2.toList := received_passed s₀ w
    refine ⟨Runs.run_cons.mpr ⟨transfer, htransfer, hpolls⟩,
      Runs.run_append_eq_some.mpr ⟨_, hlook, hactions⟩, ?_, ?_⟩
    · rw [Runs.log_append hlook, List.filterMap_append, hlooked, hdirect]
      simp only [portPoll, List.cons_append, List.nil_append, Runs.log, htransfer, List.filterMap_append, hreceived]
    · simp only [portPoll, List.cons_append, List.nil_append, Runs.log, htransfer, List.filterMap_append, hreceived]
      intro frame hframe
      rcases List.mem_append.mp hframe with hframe | hframe
      · exact answered_of_accepts (CanDemux.accepts_receive (Option.mem_toList.mp hframe))
      · exact hall frame hframe

/-- A heartbeat of node 1. -/
def heartbeatFrame : CanFrame := .literal 0x701 [0x05]

def expeditedAnswer : CanFrame := .literal 0x5FF [0x43, 0, 0x10, 0, 0x91, 0x01, 0, 0]

/-- A heartbeat comes in before the answer of an upload, and one right behind it. -/
def portWakes : List (PortWake Unit) :=
  [⟨0, 0, .ready (.ok ()), [], none, false, .pending⟩, ⟨5, 5, .pending, [heartbeatFrame], none, false, .pending⟩,
    ⟨9, 9, .pending, [expeditedAnswer, heartbeatFrame], none, false, .pending⟩]

/-- The first heartbeat is in its buffer afterwards, and the second still on its way. -/
theorem transfer_over_port_sample :
    let call := (⟨lastNode⟩ : SdoDriver).uploadCall 0x1000 0 [0xFF, 0xFF, 0xFF, 0xFF, 0xFF] none
    let demux := CanDemux.new.routeFrame heartbeatFrame
    Runs.run call.portStep ⟨CanDemux.new, (⟨lastNode⟩ : SdoDriver).startUpload 0x1000 0⟩ portWakes =
        some ⟨demux, .finished (.ok ⟨[0x91, 0x01, 0, 0, 0xFF], 4, true⟩)⟩ ∧
      Runs.run CanDemux.step CanDemux.new
        [.hand call.awaited heartbeatFrame, .hand call.awaited expeditedAnswer] = some demux := by
  have hrun : Runs.run ((⟨lastNode⟩ : SdoDriver).uploadCall 0x1000 0 [0xFF, 0xFF, 0xFF, 0xFF, 0xFF] none).portStep
      ⟨CanDemux.new, (⟨lastNode⟩ : SdoDriver).startUpload 0x1000 0⟩ portWakes =
      some ⟨CanDemux.new.routeFrame heartbeatFrame, .finished (.ok ⟨[0x91, 0x01, 0, 0, 0xFF], 4, true⟩)⟩ := rfl
  exact ⟨hrun, (transfer_over_port hrun).2.1⟩

end Call
end Canopen.Sdo
