import Canopen.Lib.Sequence
import Canopen.Lss

/-!
# LSS selection

A slave is selected by the four identity fields in order. The counter of `lss.rs`
says how much of that sequence the selection requests handled so far end with.
-/

namespace Canopen

open LittleEndian

/-- The selection requests that address a node, in their order. -/
def LssIdentity.requests (identity : LssIdentity) : List (UInt8 × UInt32) :=
  [(0x40, identity.vendorId), (0x41, identity.productCode), (0x42, identity.revision),
    (0x43, identity.serial)]

theorem LssIdentity.requests_nodup (identity : LssIdentity) : identity.requests.Nodup := by
  simp [requests]

/-- A request with all eight bytes and the given command. -/
def CanFrame.isLssRequest (frame : CanFrame) (cmd : UInt8) : Bool :=
  frame.id == lssRequestCob && frame.rawDlc == 8 && frame.data.getD 0 0 == cmd

def CanFrame.switchesGlobally (frame : CanFrame) (mode : UInt8) : Bool :=
  frame.isLssRequest 0x04 && frame.data.getD 1 0 == mode

def CanFrame.selectionRequest (frame : CanFrame) : Option (UInt8 × UInt32) :=
  if frame.isLssRequest 0x40 || frame.isLssRequest 0x41 || frame.isLssRequest 0x42 ||
      frame.isLssRequest 0x43 then
    some (frame.data.getD 0 0,
      ofLe32 (frame.data.getD 1 0) (frame.data.getD 2 0) (frame.data.getD 3 0) (frame.data.getD 4 0))
  else none

/-- The reply 0x44 to a completed selection. -/
def isSwitchReply (reply : Option CanFrame) : Bool :=
  reply.any fun frame => frame.data.getD 0 0 == 0x44

namespace LssSlave

def after (s : LssSlave) (frames : List CanFrame) : LssSlave :=
  frames.foldl (fun s frame => (s.process frame).1) s

/-- The selection requests handled after one more frame. A global switch to Waiting and a
successful selection leave none. -/
def handledAfter (s : LssSlave) (past : List (UInt8 × UInt32)) (frame : CanFrame) :
    List (UInt8 × UInt32) :=
  if frame.switchesGlobally 0 || isSwitchReply (s.process frame).2 then []
  else if s.mode = .waiting then past ++ frame.selectionRequest.toList
  else past

/-- The selection requests handled since construction, the last global switch to Waiting
or the last successful selection. -/
def handled (s : LssSlave) (past : List (UInt8 × UInt32)) : List CanFrame → List (UInt8 × UInt32)
  | [] => past
  | frame :: frames => handled (s.process frame).1 (s.handledAfter past frame) frames

/-- A selection request advances the ordered sequence; completing it switches the mode. -/
theorem processSelection_eq (s : LssSlave) {cmd : UInt8} {val : UInt32}
    (hcmd : cmd = 0x40 ∨ cmd = 0x41 ∨ cmd = 0x42 ∨ cmd = 0x43) :
    s.processSelection cmd val =
      if Sequence.advance s.identity.requests s.selectiveStep.toNat (cmd, val) = 4 then
        ({ s with selectiveStep := 0, mode := .configuration },
          some (makeResponse [0x44] (by simp)))
      else
        ({ s with
          selectiveStep := UInt8.ofNat
            (Sequence.advance s.identity.requests s.selectiveStep.toNat (cmd, val)) }, none) := by
  have hstep (k : UInt8) : k.toNat = s.selectiveStep.toNat ↔ s.selectiveStep = k := by
    rw [← UInt8.toNat_inj, eq_comm]
  have h0 := hstep 0
  have h1 := hstep 1
  have h2 := hstep 2
  have h3 := hstep 3
  simp only [UInt8.reduceToNat] at h0 h1 h2 h3
  rcases hcmd with rfl | rfl | rfl | rfl
  · by_cases hv : val = s.identity.vendorId
    · simp [processSelection, selection, Sequence.advance, LssIdentity.requests, hv]
    · simp [processSelection, selection, Sequence.advance, LssIdentity.requests, hv]
  · by_cases hv : val = s.identity.productCode
    · by_cases hk : s.selectiveStep = 1
      · simp [processSelection, selection, Sequence.advance, LssIdentity.requests, hv, hk]
      · simp [processSelection, selection, Sequence.advance, LssIdentity.requests, hv, h1, hk]
    · simp [processSelection, selection, Sequence.advance, LssIdentity.requests, hv]
  · by_cases hv : val = s.identity.revision
    · by_cases hk : s.selectiveStep = 2
      · simp [processSelection, selection, Sequence.advance, LssIdentity.requests, hv, hk]
      · simp [processSelection, selection, Sequence.advance, LssIdentity.requests, hv, h2, hk]
    · simp [processSelection, selection, Sequence.advance, LssIdentity.requests, hv]
  · by_cases hv : val = s.identity.serial
    · by_cases hk : s.selectiveStep = 3
      · simp [processSelection, selection, Sequence.advance, LssIdentity.requests, hv, hk]
      · simp [processSelection, selection, Sequence.advance, LssIdentity.requests, hv, h3, hk]
    · simp [processSelection, selection, Sequence.advance, LssIdentity.requests, hv]

theorem processSelection_keeps (s : LssSlave) (cmd : UInt8) (val : UInt32) :
    (s.processSelection cmd val).1.nodeId = s.nodeId ∧
      ((s.processSelection cmd val).1.mode = s.mode ∧ (s.processSelection cmd val).2 = none ∨
        isSwitchReply (s.processSelection cmd val).2 = true) := by
  unfold processSelection
  dsimp only
  generalize (if (s.selection cmd).1 = 0 then 0 else s.selectiveStep) = current
  split_ifs
  · exact ⟨rfl, .inl ⟨rfl, rfl⟩⟩
  · exact ⟨rfl, .inl ⟨rfl, rfl⟩⟩
  · exact ⟨rfl, .inr rfl⟩

/-- What a slave can do with a frame. -/
inductive Handles (s : LssSlave) (frame : CanFrame) : LssSlave × Option CanFrame → Prop
  | waiting (h : frame.switchesGlobally 0 = true) :
    Handles s frame ({ s with mode := .waiting, selectiveStep := 0 }, none)
  | configuration (h : frame.switchesGlobally 0 = false) (h' : frame.switchesGlobally 1 = true) :
    Handles s frame ({ s with mode := .configuration }, none)
  | selection (h : frame.switchesGlobally 0 = false) (hmode : s.mode = .waiting) {cmd : UInt8}
    {val : UInt32} (hcmd : cmd = 0x40 ∨ cmd = 0x41 ∨ cmd = 0x42 ∨ cmd = 0x43)
    (hreq : frame.selectionRequest = some (cmd, val)) :
    Handles s frame (s.processSelection cmd val)
  | service (h : frame.switchesGlobally 0 = false) (hmode : s.mode = .configuration)
    {s' : LssSlave} {reply : Option CanFrame} (hmode' : s'.mode = .configuration)
    (hident : s'.identity = s.identity)
    (hid : s'.nodeId = s.nodeId ∨ (1 ≤ s'.nodeId ∧ s'.nodeId ≤ 127) ∨ s'.nodeId = 0xFF)
    (hreply : isSwitchReply reply = false) : Handles s frame (s', reply)
  | ignored (h : frame.switchesGlobally 0 = false)
    (hreq : s.mode = .waiting → frame.selectionRequest = none) : Handles s frame (s, none)

theorem selectionRequest_of_switches {frame : CanFrame} {mode : UInt8}
    (h : frame.switchesGlobally mode = true) : frame.selectionRequest = none := by
  have hcmd : frame.data.getD 0 0 = 0x04 := by
    simp only [CanFrame.switchesGlobally, CanFrame.isLssRequest, Bool.and_eq_true, beq_iff_eq] at h
    exact h.1.2
  have hother {cmd : UInt8} (hne : (0x04 == cmd) = false) : frame.isLssRequest cmd = false := by
    rw [CanFrame.isLssRequest, hcmd, hne, Bool.and_false]
  unfold CanFrame.selectionRequest
  rw [hother rfl, hother rfl, hother rfl, hother rfl]
  rfl

theorem isSwitchReply_makeResponse {data : List UInt8} {h : data.length ≤ 8} :
    isSwitchReply (some (makeResponse data h)) = ((data ++ [0]).getD 0 0 == 0x44) := by
  cases data with
  | nil => rfl
  | cons b data => rfl

theorem selection_range {cmd : UInt8} (h : 0x40 ≤ cmd ∧ cmd ≤ 0x43) :
    cmd = 0x40 ∨ cmd = 0x41 ∨ cmd = 0x42 ∨ cmd = 0x43 := by
  simp only [UInt8.le_iff_toNat_le, ← UInt8.toNat_inj, UInt8.reduceToNat] at h ⊢
  omega

theorem service_reply {cmd : UInt8} {data : List UInt8} {h : (cmd :: data).length ≤ 8}
    (hcmd : cmd ≠ 0x44) : isSwitchReply (some (makeResponse (cmd :: data) h)) = false := by
  rw [isSwitchReply_makeResponse]
  exact beq_eq_false_iff_ne.mpr hcmd

theorem process_handles (s : LssSlave) (frame : CanFrame) : Handles s frame (s.process frame) := by
  unfold process
  by_cases hreq : frame.id ≠ lssRequestCob ∨ frame.rawDlc < 8
  · rw [if_pos hreq]
    have hnone (cmd : UInt8) : frame.isLssRequest cmd = false := by
      unfold CanFrame.isLssRequest
      rcases hreq with hid | hdlc
      · simp [hid]
      · have hne : frame.rawDlc ≠ 8 := by omega
        simp [hne]
    refine .ignored ?_ fun _ => ?_
    · simp [CanFrame.switchesGlobally, hnone]
    · simp [CanFrame.selectionRequest, hnone]
  · rw [if_neg hreq]
    have hcmd (cmd : UInt8) : frame.isLssRequest cmd = (frame.data.getD 0 0 == cmd) := by
      have hle : frame.rawDlc ≤ 8 := frame.length_le
      rw [not_or, not_not, not_lt] at hreq
      have heq : frame.rawDlc = 8 := by omega
      simp [CanFrame.isLssRequest, hreq.1, heq]
    have hswitch (mode : UInt8) : frame.switchesGlobally mode =
        (frame.data.getD 0 0 == 0x04 && frame.data.getD 1 0 == mode) := by
      rw [CanFrame.switchesGlobally, hcmd]
    dsimp only
    generalize hdata : frame.data.getD 0 0 = cmd at hcmd hswitch
    by_cases hglobal : cmd = 0x04
    · rw [if_pos hglobal]
      by_cases h0 : frame.data.getD 1 0 = 0
      · rw [if_pos h0]
        exact .waiting (by rw [hswitch, hglobal, h0]; rfl)
      · have hno : frame.switchesGlobally 0 = false := by
          rw [hswitch, hglobal]
          exact beq_eq_false_iff_ne.mpr h0
        rw [if_neg h0]
        by_cases h1 : frame.data.getD 1 0 = 1
        · rw [if_pos h1]
          exact .configuration hno (by rw [hswitch, hglobal, h1]; rfl)
        · rw [if_neg h1]
          refine .ignored hno fun _ => ?_
          rw [hglobal] at hcmd
          simp [CanFrame.selectionRequest, hcmd]
    · have hno (mode : UInt8) : frame.switchesGlobally mode = false := by
        rw [hswitch]
        simp [hglobal]
      rw [if_neg hglobal]
      by_cases hsel : 0x40 ≤ cmd ∧ cmd ≤ 0x43 ∧ s.mode = .waiting
      · rw [if_pos hsel]
        have hrange := selection_range ⟨hsel.1, hsel.2.1⟩
        refine .selection (hno 0) hsel.2.2 hrange ?_
        simp only [CanFrame.selectionRequest, hcmd, hdata]
        rw [if_pos]
        rcases hrange with rfl | rfl | rfl | rfl <;> rfl
      · rw [if_neg hsel]
        by_cases hconf : s.mode = .configuration
        · simp only [hconf, and_true]
          have hservice {reply : Option CanFrame} (hreply : isSwitchReply reply = false) :
              Handles s frame (s, reply) := .service (hno 0) hconf hconf rfl (.inl rfl) hreply
          split_ifs with h1 h2 h3 h4 h5 h6 h7
          · unfold configureNodeId
            split_ifs with hvalid
            · exact .service (hno 0) hconf hconf rfl (.inr hvalid) (service_reply (by decide))
            · exact hservice (service_reply (by decide))
          · exact .service (hno 0) hconf rfl rfl (.inl rfl) (service_reply (by decide))
          · exact hservice (service_reply (by rw [h3]; decide))
          · exact hservice (service_reply (by rw [h4]; decide))
          · exact hservice (service_reply (by rw [h5]; decide))
          · exact hservice (service_reply (by rw [h6]; decide))
          · exact hservice (service_reply (by rw [h7]; decide))
          · exact hservice rfl
        · have hignored : Handles s frame (s, none) := by
            refine .ignored (hno 0) fun hmode => ?_
            have hout : ¬(0x40 ≤ cmd ∧ cmd ≤ 0x43) := fun hcmd => hsel ⟨hcmd.1, hcmd.2, hmode⟩
            simp only [CanFrame.selectionRequest, hcmd]
            rw [if_neg]
            intro hany
            simp only [Bool.or_eq_true, beq_iff_eq] at hany
            rcases hany with ((rfl | rfl) | rfl) | rfl <;> exact hout (by decide)
          simp only [hconf, and_false, if_false]
          exact hignored

/-- In Waiting mode the counter tracks the requests handled so far, and a completed
sequence has been taken out of them. -/
structure Selecting (s : LssSlave) (identity : LssIdentity) (past : List (UInt8 × UInt32)) :
    Prop where
  identity_eq : s.identity = identity
  tracks : s.mode = .waiting →
    Sequence.Tracks identity.requests past s.selectiveStep.toNat ∧ s.selectiveStep.toNat < 4

variable {s : LssSlave} {identity : LssIdentity} {past : List (UInt8 × UInt32)}

theorem selecting_new (identity : LssIdentity) (nodeId : UInt8) :
    (new identity nodeId).Selecting identity [] :=
  ⟨rfl, fun _ => ⟨Sequence.tracks_nil, Nat.zero_lt_succ 3⟩⟩

theorem Selecting.advance (h : s.Selecting identity past) (hmode : s.mode = .waiting)
    (request : UInt8 × UInt32) :
    Sequence.Tracks identity.requests (past ++ [request])
        (Sequence.advance s.identity.requests s.selectiveStep.toNat request) ∧
      Sequence.advance s.identity.requests s.selectiveStep.toNat request ≤ 4 := by
  rw [h.identity_eq]
  exact ⟨(h.tracks hmode).1.advance identity.requests_nodup, Sequence.advance_le⟩

/-- The switch reply completes the ordered sequence. -/
theorem Selecting.reply_iff (h : s.Selecting identity past) (frame : CanFrame) :
    isSwitchReply (s.process frame).2 = true ↔ s.mode = .waiting ∧
      ∃ request, frame.selectionRequest = some request ∧
        identity.requests <:+ past ++ [request] := by
  have hcases := s.process_handles frame
  generalize s.process frame = r at hcases ⊢
  cases hcases with
  | waiting hw =>
    rw [selectionRequest_of_switches hw]
    simp [isSwitchReply]
  | configuration hw hc =>
    rw [selectionRequest_of_switches hc]
    simp [isSwitchReply]
  | @selection _ hmode cmd val hcmd hreq =>
    obtain ⟨htracks, -⟩ := h.advance hmode (cmd, val)
    have hfull := htracks 4 (Nat.le_refl 4)
    rw [processSelection_eq s hcmd, hreq]
    by_cases hlast : Sequence.advance s.identity.requests s.selectiveStep.toNat (cmd, val) = 4
    · rw [if_pos hlast]
      exact ⟨fun _ => ⟨hmode, _, rfl, hfull.mpr (.inr hlast.symm)⟩, fun _ => rfl⟩
    · rw [if_neg hlast]
      constructor
      · intro hreply
        cases hreply
      · rintro ⟨-, request, hrequest, hsuffix⟩
        cases hrequest
        rcases hfull.mp hsuffix with hzero | hfour
        · cases hzero
        · exact absurd hfour.symm hlast
  | service hw hmode hmode' hident hid hreply =>
    rw [hreply, hmode]
    simp
  | ignored hw hreq =>
    constructor
    · intro hreply
      cases hreply
    · rintro ⟨hmode, request, hrequest, -⟩
      rw [hreq hmode] at hrequest
      cases hrequest

theorem Selecting.process (h : s.Selecting identity past) (frame : CanFrame) :
    (s.process frame).1.Selecting identity (s.handledAfter past frame) := by
  unfold handledAfter
  have hcases := s.process_handles frame
  generalize s.process frame = r at hcases ⊢
  cases hcases with
  | waiting hw =>
    rw [hw, Bool.true_or, if_pos rfl]
    exact ⟨h.identity_eq, fun _ => ⟨Sequence.tracks_nil, Nat.zero_lt_succ 3⟩⟩
  | configuration hw hc =>
    refine ⟨h.identity_eq, fun hmode => ?_⟩
    cases hmode
  | @selection hw hmode cmd val hcmd hreq =>
    obtain ⟨htracks, hle⟩ := h.advance hmode (cmd, val)
    rw [processSelection_eq s hcmd, hw, hmode, hreq]
    by_cases hlast : Sequence.advance s.identity.requests s.selectiveStep.toNat (cmd, val) = 4
    · rw [if_pos hlast]
      refine ⟨h.identity_eq, fun hwaiting => ?_⟩
      cases hwaiting
    · rw [if_neg hlast]
      refine ⟨h.identity_eq, fun _ => ?_⟩
      have hnat : (UInt8.ofNat (Sequence.advance s.identity.requests s.selectiveStep.toNat
          (cmd, val))).toNat =
          Sequence.advance s.identity.requests s.selectiveStep.toNat (cmd, val) := by
        rw [UInt8.toNat_ofNat']
        omega
      dsimp only
      rw [hnat]
      exact ⟨htracks, by omega⟩
  | service hw hmode hmode' hident hid hreply =>
    refine ⟨hident.trans h.identity_eq, fun hwaiting => ?_⟩
    rw [hmode'] at hwaiting
    cases hwaiting
  | ignored hw hreq =>
    refine ⟨h.identity_eq, fun hmode => ?_⟩
    rw [hw, hreq hmode]
    simpa [isSwitchReply, hmode] using h.tracks hmode

theorem Selecting.after (h : s.Selecting identity past) (frames : List CanFrame) :
    (s.after frames).Selecting identity (s.handled past frames) := by
  induction frames generalizing s past with
  | nil => exact h
  | cons frame frames ih => exact ih (h.process frame)

/-- The slave is selected by exactly the ordered identity sequence. Only that or a global
switch configures it, and its node id changes only while it is configured. -/
theorem selection_exact (identity : LssIdentity) (nodeId : UInt8) (frames : List CanFrame)
    (frame : CanFrame) :
    let s := (new identity nodeId).after frames
    let s' := (s.process frame).1
    let reply := (s.process frame).2
    (isSwitchReply reply = true ↔ s.mode = .waiting ∧
      ∃ request, frame.selectionRequest = some request ∧
        identity.requests <:+ (new identity nodeId).handled [] frames ++ [request]) ∧
    (s.mode = .waiting → s'.mode = .configuration →
      isSwitchReply reply = true ∨ frame.switchesGlobally 1 = true) ∧
    (s'.nodeId ≠ s.nodeId →
      s.mode = .configuration ∧ ((1 ≤ s'.nodeId ∧ s'.nodeId ≤ 127) ∨ s'.nodeId = 0xFF)) ∧
    (s.mode = .waiting → reply.isSome = true → isSwitchReply reply = true) := by
  have h := (selecting_new identity nodeId).after frames
  generalize (new identity nodeId).after frames = s at h ⊢
  have hreply := h.reply_iff frame
  have hcases := s.process_handles frame
  dsimp only
  generalize s.process frame = r at hreply hcases ⊢
  refine ⟨hreply, ?_, ?_, ?_⟩
  · intro hmode hmode'
    cases hcases with
    | waiting hw => cases hmode'
    | configuration hw hc => exact .inr hc
    | @selection _ _ cmd val hcmd hreq =>
      rcases (s.processSelection_keeps cmd val).2 with ⟨hsame, -⟩ | hswitched
      · cases hmode.symm.trans (hsame.symm.trans hmode')
      · exact .inl hswitched
    | service hw hconf => cases hmode.symm.trans hconf
    | ignored => cases hmode.symm.trans hmode'
  · intro hne
    cases hcases with
    | waiting hw => exact absurd rfl hne
    | configuration hw hc => exact absurd rfl hne
    | @selection _ _ cmd val hcmd hreq => exact absurd (s.processSelection_keeps cmd val).1 hne
    | service hw hconf hconf' hident hid => exact ⟨hconf, hid.resolve_left hne⟩
    | ignored => exact absurd rfl hne
  · intro hmode hsome
    cases hcases with
    | waiting hw => cases hsome
    | configuration hw hc => cases hsome
    | @selection _ _ cmd val hcmd hreq =>
      rcases (s.processSelection_keeps cmd val).2 with ⟨-, hnone⟩ | hswitched
      · rw [hnone] at hsome
        cases hsome
      · exact hswitched
    | service hw hconf => cases hmode.symm.trans hconf
    | ignored => cases hsome

end LssSlave
end Canopen
