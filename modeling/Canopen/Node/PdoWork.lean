import Canopen.Lib.History
import Canopen.Node.NmtGating

/-!
# PDO work ends with Operational

Buffered receive PDOs, latched application events, the dirty set, refused
synchronous PDOs and armed deadlines are the PDO work a node holds. `HeldSince`
says that all of it rests on what happened since Operational was last left or the
node was reset, and so does everything the node does with it.
-/

namespace Canopen

open History Pdo Sdo

variable {OD : Type} [ObjectDictionary OD] {evt dirty : ℕ}

/-- Operational is left, or the node is reset. -/
def Obs.leaves : Obs → Bool
  | .reset _ => true
  | .nmt old new _ => old == .operational && new != .operational
  | _ => false

/-- What has been observed since Operational was last left or the node was reset. -/
def sinceLeave (trace : List Obs) : List Obs := since Obs.leaves trace

/-- An application event was recorded and latched for transmit PDO `i`. -/
def Triggered (past : List Obs) (i : ℕ) : Prop := ∃ e, .appEvent e ∈ past ∧ .latched i e ∈ past

/-- The frame was sampled on a SYNC pulse. -/
def Sampled (past : List Obs) (frame : CanFrame) : Prop :=
  ∃ frames, .pulse frames ∈ past ∧ frame ∈ frames

/-- A frame of receive PDO `i` was received. -/
def Received (past : List Obs) (i : ℕ) : Prop := ∃ frame, .rpdoReceived i frame ∈ past

/-- What the PDO work behind an observation rests on. -/
def RestsOn (past : List Obs) : Obs → Prop
  | .rpdoApplied i frame => .rpdoReceived i frame ∈ past
  | .odWrite .rpdo _ _ => ∃ i frame, .rpdoApplied i frame ∈ past
  | .offer (.eventTpdo i true) _ _ _ => Triggered past i
  | .eventSampled i => Triggered past i
  | .offer .syncTpdo frame _ _ => Sampled past frame
  | .deadlineExpired i => Received past i
  | _ => True

/-- The PDO work a node holds, slot by slot. -/
structure PdoWork where
  dirtySet : List (UInt16 × UInt8)
  latches : List (Bool × Bool)
  refused : List CanFrame
  held : List (Option CanFrame × Bool)

def Node.pdoWork (n : Node OD evt dirty) : PdoWork :=
  ⟨n.dirtySet, n.tpdo.slots.map TpdoSlot.latches, n.pendingSyncTpdo,
    n.rpdo.slots.map RpdoSlot.held⟩

/-- All PDO work rests on what happened in `past`. -/
structure HeldSince (past : List Obs) (w : PdoWork) : Prop where
  dirtySet : ∀ addr ∈ w.dirtySet, .appEvent (.changed addr) ∈ past
  latches : ∀ i l, w.latches[i]? = some l → l ≠ (false, false) → Triggered past i
  refused : ∀ frame ∈ w.refused, Sampled past frame
  buffered : ∀ i frame armed, w.held[i]? = some (some frame, armed) → .rpdoReceived i frame ∈ past
  armed : ∀ i pending, w.held[i]? = some (pending, true) → Received past i

/-- The invariant: all work rests on what happened since, and so did all work done. -/
structure WorkInv (m : Machine OD evt dirty) : Prop where
  held : HeldSince (sinceLeave m.bus.trace) m.node.pdoWork
  done : Supported Obs.leaves RestsOn [] m.bus.trace

/-! ## A growing past -/

section Past

variable {past past' : List Obs}

theorem Triggered.mono {i : ℕ} (h : Triggered past i) (hsub : past ⊆ past') : Triggered past' i := by
  obtain ⟨e, hrecorded, hlatched⟩ := h
  exact ⟨e, hsub hrecorded, hsub hlatched⟩

theorem Sampled.mono {frame : CanFrame} (h : Sampled past frame) (hsub : past ⊆ past') :
    Sampled past' frame := by
  obtain ⟨frames, hpulse, hmem⟩ := h
  exact ⟨frames, hsub hpulse, hmem⟩

theorem Received.mono {i : ℕ} (h : Received past i) (hsub : past ⊆ past') : Received past' i := by
  obtain ⟨frame, hreceived⟩ := h
  exact ⟨frame, hsub hreceived⟩

theorem restsOn_mono (past past' : List Obs) (o : Obs) (hsub : past ⊆ past')
    (h : RestsOn past o) : RestsOn past' o := by
  unfold RestsOn at h ⊢
  split
  · exact hsub h
  · obtain ⟨i, frame, happlied⟩ := h
    exact ⟨i, frame, hsub happlied⟩
  · exact Triggered.mono h hsub
  · exact Triggered.mono h hsub
  · exact Sampled.mono h hsub
  · exact Received.mono h hsub
  · trivial

theorem HeldSince.mono {w : PdoWork} (h : HeldSince past w) (hsub : past ⊆ past') :
    HeldSince past' w where
  dirtySet addr hmem := hsub (h.dirtySet addr hmem)
  latches i l hget hl := (h.latches i l hget hl).mono hsub
  refused frame hmem := (h.refused frame hmem).mono hsub
  buffered i frame armed hget := hsub (h.buffered i frame armed hget)
  armed i pending hget := (h.armed i pending hget).mono hsub

theorem heldSince_of_empty {w : PdoWork} (hdirty : w.dirtySet = [])
    (hlatches : ∀ l ∈ w.latches, l = (false, false)) (hrefused : w.refused = [])
    (hheld : ∀ p ∈ w.held, p = (none, false)) : HeldSince past w := by
  constructor
  · simp [hdirty]
  · intro i l hget hl
    exact absurd (hlatches l (List.mem_of_getElem? hget)) hl
  · simp [hrefused]
  · intro i frame armed hget
    cases hheld _ (List.mem_of_getElem? hget)
  · intro i pending hget
    cases hheld _ (List.mem_of_getElem? hget)

end Past

/-! ## Extending the trace -/

/-- Observations that no PDO work is behind and that leave Operational as it is. -/
def Obs.isPassive : Obs → Bool
  | .rpdoApplied _ _ => false
  | .odWrite .rpdo _ _ => false
  | .offer (.eventTpdo _ true) _ _ _ => false
  | .eventSampled _ => false
  | .offer .syncTpdo _ _ _ => false
  | .deadlineExpired _ => false
  | o => !o.leaves

theorem passive_restsOn {o : Obs} (h : o.isPassive = true) (past : List Obs) : RestsOn past o := by
  unfold RestsOn
  split <;> trivial

theorem passive_not_leaves {o : Obs} (h : o.isPassive = true) : o.leaves = false := by
  unfold Obs.isPassive at h
  split at h <;> first | cases h | simpa using h

theorem supported_passive {obs : List Obs} (past : List Obs)
    (hobs : ∀ o ∈ obs, o.isPassive = true) :
    Supported Obs.leaves RestsOn past obs := by
  apply supported_of_forall restsOn_mono
  · intro o ho
    exact passive_not_leaves (hobs o ho)
  · intro o ho
    exact passive_restsOn (hobs o ho) past

section Extend

omit [ObjectDictionary OD]

variable {m m' : Machine OD evt dirty} {obs : List Obs}

theorem WorkInv.extend (h : WorkInv m) (htrace : m'.bus.trace = m.bus.trace ++ obs)
    (hleaves : ∀ o ∈ obs, o.leaves = false)
    (hdone : Supported Obs.leaves RestsOn (sinceLeave m.bus.trace) obs)
    (hheld : HeldSince (sinceLeave m.bus.trace ++ obs) m'.node.pdoWork) : WorkInv m' := by
  constructor
  · rw [htrace, sinceLeave, since_append_of_not_cut _ hleaves]
    exact hheld
  · rw [htrace]
    exact supported_append h.done hdone

theorem WorkInv.passive (h : WorkInv m) (htrace : m'.bus.trace = m.bus.trace ++ obs)
    (hobs : ∀ o ∈ obs, o.isPassive = true)
    (hheld : HeldSince (sinceLeave m.bus.trace ++ obs) m'.node.pdoWork) : WorkInv m' := by
  apply h.extend htrace
  · intro o ho
    exact passive_not_leaves (hobs o ho)
  · exact supported_passive _ hobs
  · exact hheld

/-- One observation leaves Operational and no work is left; the past begins anew. -/
theorem WorkInv.leave (h : WorkInv m) (pre : List Obs) {post : List Obs} {o : Obs}
    (htrace : m'.bus.trace = m.bus.trace ++ (pre ++ o :: post))
    (hpre : ∀ o ∈ pre, o.isPassive = true) (ho : o.leaves = true)
    (hpost : ∀ o ∈ post, o.isPassive = true) (hheld : ∀ past, HeldSince past m'.node.pdoWork) :
    WorkInv m' := by
  refine ⟨hheld _, ?_⟩
  have hrests (past : List Obs) : RestsOn past o := by
    unfold RestsOn
    split <;> trivial
  rw [htrace]
  apply supported_append h.done
  apply supported_append (supported_passive _ hpre)
  refine ⟨hrests _, ?_⟩
  rw [if_pos ho]
  exact supported_passive [] hpost

theorem WorkInv.of_work_eq (h : WorkInv m) (hwork : m'.node.pdoWork = m.node.pdoWork)
    (htrace : m'.bus.trace = m.bus.trace ++ obs) (hobs : ∀ o ∈ obs, o.isPassive = true) :
    WorkInv m' := by
  apply h.passive htrace hobs
  rw [hwork]
  exact h.held.mono (List.subset_append_left _ _)

end Extend

/-! ## Steps without PDO work -/

omit [ObjectDictionary OD] in
theorem workInv_quiet {m m' : Machine OD evt dirty} (h : WorkInv m) (hq : Quiet m m') :
    WorkInv m' := by
  obtain ⟨obs, htrace, hobs⟩ := hq.trace
  apply h.of_work_eq _ htrace
  · intro o ho
    obtain ⟨kind, frame, result, rfl, rfl | ⟨rfl, -⟩ | ⟨rfl, -⟩ | ⟨rfl, -⟩⟩ := hobs o ho
    · rfl
    · rfl
    · rfl
    · rfl
  · unfold Node.pdoWork
    rw [hq.dirtySet, hq.tpdo, hq.pendingSyncTpdo, hq.rpdo]

omit [ObjectDictionary OD] in
theorem workInv_boot {m : Machine OD evt dirty} (h : WorkInv m) (hinit : m.state = .initializing)
    (hb : m.node.booted = false) (nowUs : UInt64) : WorkInv (m.boot nowUs).1 := by
  obtain ⟨heartbeat, frame, result, ⟨hnode, htrace⟩ | ⟨nmt, -, hnode, htrace⟩⟩ :=
    boot_cases hb nowUs
  · apply h.of_work_eq (by rw [hnode]; rfl) htrace
    intro o ho
    rw [List.mem_singleton] at ho
    rw [ho]
    rfl
  · apply h.of_work_eq (by rw [hnode]; rfl) htrace
    intro o ho
    simp only [List.mem_cons, List.not_mem_nil, or_false] at ho
    rcases ho with rfl | rfl
    · rfl
    · rw [hinit]
      rfl

theorem passive_of_channel {o : Obs} (h : o.ofChannel = true) : o.isPassive = true := by
  unfold Obs.ofChannel at h
  split at h <;> first | rfl | cases h

omit [ObjectDictionary OD] in
theorem workInv_channel {m : Machine OD evt dirty} (h : WorkInv m) {i : ℕ} {ch ch' : SdoChannel}
    {b : Bus} (hs : ChannelStep m.state i ch m.bus ch' b) :
    WorkInv (⟨{ m.node with sdo := m.node.sdo.set i ch' }, b⟩ : Machine OD evt dirty) := by
  obtain ⟨obs, htrace, hobs⟩ := channelStep_ofChannel hs
  refine h.of_work_eq rfl htrace ?_
  intro o ho
  exact passive_of_channel (hobs o ho)

omit [ObjectDictionary OD] in
theorem Reread.pdoWork {n n' : Node OD evt dirty} (h : Reread n n') : n'.pdoWork = n.pdoWork := by
  unfold Node.pdoWork
  rw [h.dirtySet, h.latches, h.pendingSyncTpdo, h.held]

theorem workInv_request {m m' : Machine OD evt dirty} (h : WorkInv m) {i : ℕ} {ch : SdoChannel}
    {request : SdoFrame} {nowUs : UInt64}
    (hr : (m.answerRequest i ch request nowUs).1.resync
      (m.answerRequest i ch request nowUs).2 = some m') : WorkInv m' := by
  obtain ⟨obs, htrace, hobs⟩ := request_trace hr
  apply h.of_work_eq (resync_reread hr).1.pdoWork htrace
  intro o ho
  rcases List.mem_append.mp ho with ho | ho
  · rcases List.mem_append.mp ho with ho | ho
    · exact passive_of_channel (requestHead_ofChannel o ho)
    · obtain ⟨w, -, rfl⟩ := List.mem_map.mp ho
      rfl
  · exact passive_of_channel (hobs o ho)

/-! ## Leaving Operational -/

omit [ObjectDictionary OD] in
theorem leaveOperational_held (n : Node OD evt dirty) (past : List Obs) :
    HeldSince past n.leaveOperational.pdoWork := by
  apply heldSince_of_empty
  · rfl
  · intro l hl
    obtain ⟨slot, hslot, rfl⟩ := List.mem_map.mp hl
    obtain ⟨s, hs, rfl⟩ := List.mem_map.mp hslot
    obtain ⟨s', -, rfl⟩ := List.mem_map.mp hs
    rfl
  · rfl
  · intro p hp
    obtain ⟨slot, hslot, rfl⟩ := List.mem_map.mp hp
    obtain ⟨s, hs, rfl⟩ := List.mem_map.mp hslot
    obtain ⟨s', -, rfl⟩ := List.mem_map.mp hs
    rfl

omit [ObjectDictionary OD] in
/-- A change of the state: on the way out of Operational all work ends, and only then
does the past begin anew. -/
theorem workInv_stateChanged {m : Machine OD evt dirty} (h : WorkInv m) {s : NmtState}
    (hne : s ≠ m.state) : WorkInv (m.stateChanged ⟨s⟩) := by
  have hheld (past : List Obs) (hs : s ≠ .operational) :
      HeldSince past (m.stateChanged ⟨s⟩).node.pdoWork := by
    rw [stateChanged_node]
    dsimp only
    rw [if_neg hs]
    split_ifs
    · exact leaveOperational_held _ past
    · exact leaveOperational_held _ past
  have hdiscarded : ∀ o ∈ (if s = .stopped then abortObs m.node.sdo else []),
      o.isPassive = true := by
    intro o ho
    split_ifs at ho
    · obtain ⟨i, frame, reason, idle, rfl⟩ := mem_abortObs ho
      rfl
    · cases ho
  have htrace := stateChanged_trace m s
  unfold Machine.stateChangedObs at htrace
  by_cases hop : m.state = .operational
  · have hs : s ≠ .operational := by rwa [hop] at hne
    apply h.leave [] htrace (by simp) _ hdiscarded
    · intro past
      exact hheld past hs
    · simp [Obs.leaves, hop, hs]
  · apply h.passive htrace
    · intro o ho
      rcases List.mem_cons.mp ho with rfl | ho
      · simp [Obs.isPassive, Obs.leaves, hop]
      · exact hdiscarded o ho
    · by_cases hs : s = .operational
      · have hwork : (m.stateChanged ⟨s⟩).node.pdoWork = m.node.pdoWork := by
          rw [stateChanged_node]
          dsimp only
          rw [if_pos hs]
          rfl
        rw [hwork]
        exact h.held.mono (List.subset_append_left _ _)
      · exact hheld _ hs

theorem workInv_reset {m m' : Machine OD evt dirty} (h : WorkInv m) {resetType : ResetType}
    (hr : m.requestReset resetType = some m') : WorkInv m' := by
  have hdone := requestReset_done hr
  apply h.leave _ hdone.trace _ rfl (by simp)
  · intro past
    apply heldSince_of_empty
    · exact hdone.dirtySet
    · intro l hl
      obtain ⟨slot, hslot, rfl⟩ := List.mem_map.mp hl
      exact hdone.latches slot hslot
    · exact hdone.pendingSyncTpdo
    · intro p hp
      obtain ⟨slot, hslot, rfl⟩ := List.mem_map.mp hp
      exact hdone.held slot hslot
  · intro o ho
    obtain ⟨i, frame, reason, idle, rfl⟩ := mem_abortObs ho
    rfl

/-! ## Receive PDOs -/

section Receive

/-- Updating the work of one receive slot. -/
theorem HeldSince.set_held {past past' : List Obs} {w : PdoWork} (h : HeldSince past w)
    (hsub : past ⊆ past') {i : ℕ} {pending : Option CanFrame} {armed : Bool}
    (hpending : ∀ frame, pending = some frame → .rpdoReceived i frame ∈ past')
    (harmed : armed = true → Received past' i) :
    HeldSince past' { w with held := w.held.set i (pending, armed) } := by
  have hmono := h.mono hsub
  refine ⟨hmono.dirtySet, hmono.latches, hmono.refused, ?_, ?_⟩
  · intro j frame armed' hget
    rw [List.getElem?_set] at hget
    split_ifs at hget with hij
    · cases hget
      subst hij
      exact hpending frame rfl
    · exact hmono.buffered j frame armed' hget
  · intro j pending' hget
    rw [List.getElem?_set] at hget
    split_ifs at hget with hij
    · cases hget
      subst hij
      exact harmed rfl
    · exact hmono.armed j pending' hget

omit [ObjectDictionary OD] in
theorem heldSince_receive {m : Machine OD evt dirty} (h : WorkInv m) {i : ℕ} {slot : RpdoSlot}
    (hslot : m.node.rpdo.slots[i]? = some slot) {frame : CanFrame} {obs : List Obs}
    (hreceived : .rpdoReceived i frame ∈ obs) {slot' : RpdoSlot}
    (hpending : slot'.pending = some frame ∨ slot'.pending = slot.pending) :
    HeldSince (sinceLeave m.bus.trace ++ obs)
      { m.node.pdoWork with held := (m.node.rpdo.slots.set i slot').map RpdoSlot.held } := by
  have hmem : Obs.rpdoReceived i frame ∈ sinceLeave m.bus.trace ++ obs :=
    List.mem_append_right _ hreceived
  rw [List.map_set]
  apply h.held.set_held (List.subset_append_left _ _)
  · intro f hf
    rcases hpending with hp | hp
    · rw [hp] at hf
      cases hf
      exact hmem
    · rw [hp] at hf
      apply List.mem_append_left
      apply h.held.buffered i f slot.armed
      show (m.node.rpdo.slots.map RpdoSlot.held)[i]? = _
      rw [List.getElem?_map, hslot, Option.map_some, RpdoSlot.held, hf]
  · intro _
    exact ⟨frame, hmem⟩

/-- Applied frames that were received, and the dictionary writes made for them. -/
structure AppliedSince (past : List Obs) (applied : List Obs) (writes : List OdWrite) : Prop where
  received : ∀ o ∈ applied, ∃ i frame, o = .rpdoApplied i frame ∧ .rpdoReceived i frame ∈ past
  writes : writes ≠ [] → applied ≠ []

theorem AppliedSince.not_leaves {past applied : List Obs} {writes : List OdWrite}
    (h : AppliedSince past applied writes) (state : NmtState) :
    ∀ o ∈ applied ++ writes.map fun w => .odWrite .rpdo w state, o.leaves = false := by
  intro o ho
  rcases List.mem_append.mp ho with ho | ho
  · obtain ⟨i, frame, rfl, -⟩ := h.received o ho
    rfl
  · obtain ⟨w, -, rfl⟩ := List.mem_map.mp ho
    rfl

theorem AppliedSince.supported {past applied : List Obs} {writes : List OdWrite}
    (h : AppliedSince past applied writes) (state : NmtState) :
    Supported Obs.leaves RestsOn past
      (applied ++ writes.map fun w => .odWrite .rpdo w state) := by
  have hleaves := h.not_leaves state
  apply supported_append
  · apply supported_of_forall restsOn_mono
    · intro o ho
      exact hleaves o (List.mem_append_left _ ho)
    · intro o ho
      obtain ⟨i, frame, rfl, hreceived⟩ := h.received o ho
      exact hreceived
  · rw [sinceFrom_of_not_cut fun o ho => hleaves o (List.mem_append_left _ ho)]
    apply supported_of_forall restsOn_mono
    · intro o ho
      exact hleaves o (List.mem_append_right _ ho)
    · intro o ho
      obtain ⟨w, hw, rfl⟩ := List.mem_map.mp ho
      obtain ⟨first, hfirst⟩ := List.exists_mem_of_ne_nil applied
        (h.writes (List.ne_nil_of_mem hw))
      obtain ⟨i, frame, rfl, -⟩ := h.received first hfirst
      exact ⟨i, frame, List.mem_append_right _ hfirst⟩

/-- A received frame is buffered, or applied at once. -/
theorem workInv_receiveRpdo {m : Machine OD evt dirty} (h : WorkInv m) {i : ℕ} {slot : RpdoSlot}
    (hslot : m.node.rpdo.slots[i]? = some slot) (frame : CanFrame) (nowUs : UInt64) :
    WorkInv (m.receiveRpdo i slot frame nowUs) := by
  have hpassive : ∀ o ∈ [Obs.rpdoReceived i frame], o.isPassive = true := by
    intro o ho
    rw [List.mem_singleton] at ho
    rw [ho]
    rfl
  unfold Machine.receiveRpdo
  dsimp only
  split_ifs
  · exact h.of_work_eq rfl rfl (by simp)
  · refine h.passive rfl hpassive ?_
    exact heldSince_receive h hslot List.mem_cons_self (.inl rfl)
  · have happlied : AppliedSince (sinceLeave m.bus.trace ++ [.rpdoReceived i frame])
        [.rpdoApplied i frame]
        (applyMapped frame.data slot.config.mappings 0 m.rpdoState).writes := by
      constructor
      · intro o ho
        rw [List.mem_singleton] at ho
        exact ⟨i, frame, ho, by simp⟩
      · simp
    refine h.extend rfl ?_ ?_ ?_
    · intro o ho
      rcases List.mem_cons.mp ho with rfl | ho
      · rfl
      · exact happlied.not_leaves m.state o ho
    · have hfirst : sinceFrom Obs.leaves (sinceLeave m.bus.trace) [.rpdoReceived i frame] =
          sinceLeave m.bus.trace ++ [.rpdoReceived i frame] := rfl
      apply supported_append (l := [.rpdoReceived i frame]) (supported_passive _ hpassive)
      rw [hfirst]
      exact happlied.supported m.state
    · exact heldSince_receive h hslot List.mem_cons_self (.inr rfl)

theorem onSync_writes {slots : List RpdoSlot} (h : ∀ slot ∈ slots, slot.pending = none)
    (s : RpdoState OD evt) : (RpdoEngine.onSync slots s).2.writes = s.writes := by
  induction slots generalizing s with
  | nil => rfl
  | cons slot slots ih =>
    unfold RpdoEngine.onSync
    rw [h slot List.mem_cons_self]
    exact ih (fun slot' hmem => h slot' (List.mem_cons_of_mem _ hmem)) s

theorem appliedObs_ne_nil {slots : List RpdoSlot} {slot : RpdoSlot} (hmem : slot ∈ slots)
    (h : slot.pending ≠ none) : appliedObs slots ≠ [] := by
  obtain ⟨i, hi⟩ := List.mem_iff_getElem?.mp hmem
  obtain ⟨frame, hframe⟩ := Option.ne_none_iff_exists'.mp h
  have hobs : Obs.rpdoApplied i frame ∈ appliedObs slots := by
    apply List.mem_filterMap.mpr
    exact ⟨(slot, i), List.mem_zipIdx_iff_getElem?.mpr hi, by simp [hframe]⟩
  exact List.ne_nil_of_mem hobs

/-- The frames buffered for a SYNC pulse are applied. -/
theorem workInv_applyPulse {m : Machine OD evt dirty} (h : WorkInv m) : WorkInv m.applyPulse := by
  have happlied : AppliedSince (sinceLeave m.bus.trace) (appliedObs m.node.rpdo.slots)
      (RpdoEngine.onSync m.node.rpdo.slots m.rpdoState).2.writes := by
    constructor
    · intro o ho
      obtain ⟨i, slot, frame, rfl, hget, hpending⟩ := mem_appliedObs ho
      refine ⟨i, frame, rfl, h.held.buffered i frame slot.armed ?_⟩
      show (m.node.rpdo.slots.map RpdoSlot.held)[i]? = _
      rw [List.getElem?_map, hget, Option.map_some, RpdoSlot.held, hpending]
    · intro hne hnil
      apply hne
      apply onSync_writes
      intro slot hmem
      by_contra hpending
      exact appliedObs_ne_nil hmem hpending hnil
  refine h.extend rfl (happlied.not_leaves m.state) (happlied.supported m.state) ?_
  have hmono := h.held.mono (List.subset_append_left (sinceLeave m.bus.trace)
    (appliedObs m.node.rpdo.slots ++ (RpdoEngine.onSync m.node.rpdo.slots m.rpdoState).2.writes.map
      fun w => .odWrite .rpdo w m.state))
  have hslots : m.applyPulse.node.rpdo.slots = m.node.rpdo.slots.map ({ · with pending := none }) :=
    onSync_slots m.node.rpdo.slots m.rpdoState
  refine ⟨hmono.dirtySet, hmono.latches, hmono.refused, ?_, ?_⟩
  · intro i frame armed hget
    change (m.applyPulse.node.rpdo.slots.map RpdoSlot.held)[i]? = _ at hget
    rw [hslots, List.map_map, List.getElem?_map] at hget
    obtain ⟨slot, -, hslot⟩ := Option.map_eq_some_iff.mp hget
    cases hslot
  · intro i pending hget
    change (m.applyPulse.node.rpdo.slots.map RpdoSlot.held)[i]? = _ at hget
    rw [hslots, List.map_map, List.getElem?_map] at hget
    obtain ⟨slot, hslot, heq⟩ := Option.map_eq_some_iff.mp hget
    apply hmono.armed i slot.pending
    show (m.node.rpdo.slots.map RpdoSlot.held)[i]? = _
    have harmed : slot.armed = true := (Prod.mk.inj heq).2
    rw [List.getElem?_map, hslot, Option.map_some, RpdoSlot.held, harmed]

end Receive

/-! ## Transmit PDOs -/

section Transmit

/-- Updating the latches slot by slot: a latch that is set was set before, or its event
is in the past. -/
theorem heldSince_latches {past : List Obs} {slots : List TpdoSlot} {f : TpdoSlot → TpdoSlot}
    (h : ∀ i slot, slots[i]? = some slot → (f slot).latches ≠ (false, false) → Triggered past i) :
    ∀ i l, ((slots.map f).map TpdoSlot.latches)[i]? = some l → l ≠ (false, false) →
      Triggered past i := by
  intro i l hget hl
  rw [List.map_map, List.getElem?_map] at hget
  obtain ⟨slot, hslot, rfl⟩ := Option.map_eq_some_iff.mp hget
  exact h i slot hslot hl

omit [ObjectDictionary OD] in
theorem WorkInv.triggered {m : Machine OD evt dirty} (h : WorkInv m) {i : ℕ} {slot : TpdoSlot}
    (hslot : m.node.tpdo.slots[i]? = some slot) (hl : slot.latches ≠ (false, false)) :
    Triggered (sinceLeave m.bus.trace) i := by
  apply h.held.latches i slot.latches _ hl
  show (m.node.tpdo.slots.map TpdoSlot.latches)[i]? = _
  rw [List.getElem?_map, hslot, Option.map_some]

theorem slotOnSync_latches {slot : TpdoSlot} {od : OD}
    (h : (slot.onSync od).1.latches ≠ (false, false)) : slot.latches ≠ (false, false) := by
  intro hl
  apply h
  unfold TpdoSlot.onSync
  dsimp only
  split_ifs <;> first | exact hl | simp_all [TpdoSlot.latches]

/-- The synchronous PDOs are sampled and offered. -/
theorem workInv_sendPulse {m : Machine OD evt dirty} (h : WorkInv m) (nowUs : UInt64) :
    WorkInv (m.sendPulse nowUs) := by
  obtain ⟨obs, htrace, hobs⟩ := sendPulse_trace m nowUs
  have hsampled : ∀ o ∈ sampledObs m.node.tpdo.slots, o.leaves = false ∧
      RestsOn (sinceLeave m.bus.trace) o := by
    intro o ho
    obtain ⟨i, slot, rfl, hslot, hpending⟩ := mem_sampledObs ho
    exact ⟨rfl, h.triggered hslot (by simp [TpdoSlot.latches, hpending])⟩
  have hpast : Supported Obs.leaves RestsOn (sinceLeave m.bus.trace)
      (sampledObs m.node.tpdo.slots) :=
    supported_of_forall restsOn_mono (fun o ho => (hsampled o ho).1) fun o ho => (hsampled o ho).2
  have hframes (past : List Obs) {frame : CanFrame}
      (hframe : frame ∈ (m.node.tpdo.onSync m.node.od).2) :
      Sampled (past ++ (sampledObs m.node.tpdo.slots ++
        [.pulse (m.node.tpdo.onSync m.node.od).2])) frame :=
    ⟨_, by simp, hframe⟩
  have hsplit : sampledObs m.node.tpdo.slots ++ .pulse (m.node.tpdo.onSync m.node.od).2 :: obs =
      sampledObs m.node.tpdo.slots ++ [.pulse (m.node.tpdo.onSync m.node.od).2] ++ obs := by
    simp
  have hhead : ∀ o ∈ sampledObs m.node.tpdo.slots ++ [.pulse (m.node.tpdo.onSync m.node.od).2],
      o.leaves = false := by
    intro o ho
    rcases List.mem_append.mp ho with ho | ho
    · exact (hsampled o ho).1
    · rw [List.mem_singleton] at ho
      rw [ho]
      rfl
  have hoffers : ∀ o ∈ obs, o.leaves = false := by
    intro o ho
    obtain ⟨frame, -, result, rfl⟩ := hobs o ho
    rfl
  rw [hsplit] at htrace
  apply h.extend htrace
  · intro o ho
    rcases List.mem_append.mp ho with ho | ho
    · exact hhead o ho
    · exact hoffers o ho
  · apply supported_append
    · exact supported_append hpast ⟨trivial, trivial⟩
    · rw [sinceFrom_of_not_cut hhead]
      apply supported_of_forall restsOn_mono hoffers
      intro o ho
      obtain ⟨frame, hframe, result, rfl⟩ := hobs o ho
      exact hframes _ hframe
  · have hmono := h.held.mono (List.subset_append_left (sinceLeave m.bus.trace)
      (sampledObs m.node.tpdo.slots ++ [.pulse (m.node.tpdo.onSync m.node.od).2] ++ obs))
    refine ⟨hmono.dirtySet, ?_, ?_, hmono.buffered, hmono.armed⟩
    · apply heldSince_latches
      intro i slot hslot hl
      exact (h.triggered hslot (slotOnSync_latches hl)).mono (List.subset_append_left _ _)
    · intro frame hframe
      rw [← List.append_assoc]
      exact (hframes _ (transmitAll_subset _ _ _ _ frame hframe)).mono (List.subset_append_left _ _)

omit [ObjectDictionary OD] in
/-- Refused synchronous PDOs are offered again or dropped. -/
theorem workInv_retry {m : Machine OD evt dirty} (h : WorkInv m) (nowUs : UInt64) :
    WorkInv (m.retryPendingSyncTpdo nowUs) := by
  rcases retryPendingSyncTpdo_cases m nowUs with heq | heq | ⟨-, last, heq⟩
  · rw [heq]
    exact h
  · rw [heq]
    refine h.passive (List.append_nil _).symm (by simp) ?_
    have hmono := h.held.mono (List.subset_append_left (sinceLeave m.bus.trace) [])
    exact ⟨hmono.dirtySet, hmono.latches, by simp [Node.pdoWork], hmono.buffered, hmono.armed⟩
  · rw [heq]
    obtain ⟨obs, htrace, hobs⟩ :=
      transmitAll_trace m.state .syncTpdo m.node.pendingSyncTpdo m.bus
    have hleaves : ∀ o ∈ obs, o.leaves = false := by
      intro o ho
      obtain ⟨frame, -, result, rfl⟩ := hobs o ho
      rfl
    refine h.extend htrace hleaves ?_ ?_
    · apply supported_of_forall restsOn_mono hleaves
      intro o ho
      obtain ⟨frame, hframe, result, rfl⟩ := hobs o ho
      exact h.held.refused frame hframe
    · have hmono := h.held.mono (List.subset_append_left (sinceLeave m.bus.trace) obs)
      refine ⟨hmono.dirtySet, hmono.latches, ?_, hmono.buffered, hmono.armed⟩
      intro frame hframe
      exact hmono.refused frame (transmitAll_subset _ _ _ _ frame hframe)

omit [ObjectDictionary OD] in
/-- Only an armed deadline expires. -/
theorem workInv_deadlines {m : Machine OD evt dirty} (h : WorkInv m) (nowUs : UInt64) :
    WorkInv (m.checkDeadlines nowUs) := by
  rcases checkDeadlines_cases m nowUs with ⟨-, queue, count, heq⟩ | ⟨-, heq⟩
  · rw [heq]
    have hexpired : ∀ o ∈ (m.node.rpdo.overdueSlots nowUs).map fun p => Obs.deadlineExpired p.1,
        o.leaves = false ∧ RestsOn (sinceLeave m.bus.trace) o := by
      intro o ho
      obtain ⟨p, hp, rfl⟩ := List.mem_map.mp ho
      obtain ⟨⟨slot, i⟩, hmem, hdue⟩ := List.mem_filterMap.mp hp
      dsimp only at hdue
      split_ifs at hdue with hoverdue
      cases hdue
      have harmed : slot.armed = true := by
        simp only [RpdoSlot.isOverdue, Bool.and_eq_true] at hoverdue
        exact hoverdue.1.1.2
      refine ⟨rfl, h.held.armed i slot.pending ?_⟩
      show (m.node.rpdo.slots.map RpdoSlot.held)[i]? = _
      rw [List.getElem?_map, List.mem_zipIdx_iff_getElem?.mp hmem, Option.map_some,
        RpdoSlot.held, harmed]
    have hwork : m.node.rpdo.slots.map RpdoSlot.held =
        (m.node.rpdo.checkDeadlines nowUs).slots.map RpdoSlot.held := by
      unfold RpdoEngine.checkDeadlines
      rw [List.map_map]
      apply List.map_congr_left
      intro slot _
      simp only [Function.comp]
      split_ifs <;> rfl
    refine h.extend rfl (fun o ho => (hexpired o ho).1) ?_ ?_
    · exact supported_of_forall restsOn_mono (fun o ho => (hexpired o ho).1)
        fun o ho => (hexpired o ho).2
    · have hmono := h.held.mono (List.subset_append_left (sinceLeave m.bus.trace)
        ((m.node.rpdo.overdueSlots nowUs).map fun p => Obs.deadlineExpired p.1))
      unfold Node.pdoWork at hmono ⊢
      rw [hwork] at hmono
      exact hmono
  · rw [heq]
    exact h.passive (List.append_nil _).symm (by simp) (leaveOperational_held _ _)

theorem latchObs_mem {selected : TpdoSlot → Bool} {dirtySet : List (UInt16 × UInt8)}
    {slots : List TpdoSlot} {i : ℕ} {slot : TpdoSlot} (hslot : slots[i]? = some slot)
    (hsel : selected slot = true) (hdirty : dirtySet.any slot.maps = true) :
    ∃ addr ∈ dirtySet, .latched i (.changed addr) ∈ latchObs selected dirtySet slots := by
  obtain ⟨addr, hfind⟩ := Option.isSome_iff_exists.mp (List.find?_isSome.mpr
    (List.any_eq_true.mp hdirty))
  refine ⟨addr, List.mem_of_find?_eq_some hfind, ?_⟩
  apply List.mem_filterMap.mpr
  exact ⟨(slot, i), List.mem_zipIdx_iff_getElem?.mpr hslot, by simp [hsel, hfind]⟩

theorem triggered_of_dirty {past : List Obs} {selected : TpdoSlot → Bool}
    {dirtySet : List (UInt16 × UInt8)}
    (h : ∀ addr ∈ dirtySet, .appEvent (.changed addr) ∈ past) {slots : List TpdoSlot} {i : ℕ}
    {slot : TpdoSlot} (hslot : slots[i]? = some slot) (hsel : selected slot = true)
    (hdirty : dirtySet.any slot.maps = true) :
    Triggered (past ++ latchObs selected dirtySet slots) i := by
  obtain ⟨addr, hmem, hlatched⟩ := latchObs_mem hslot hsel hdirty
  exact ⟨.changed addr, List.mem_append_left _ (h addr hmem), List.mem_append_right _ hlatched⟩

theorem hasDirtyMapping_any {slot : TpdoSlot} {dirtySet : List (UInt16 × UInt8)}
    (h : slot.hasDirtyMapping dirtySet = true) : dirtySet.any slot.maps = true := by
  rw [TpdoSlot.hasDirtyMapping, Bool.and_eq_true] at h
  exact h.2

theorem latchObs_passive {selected : TpdoSlot → Bool} {dirtySet : List (UInt16 × UInt8)}
    {slots : List TpdoSlot} : ∀ o ∈ latchObs selected dirtySet slots, o.isPassive = true := by
  intro o ho
  obtain ⟨i, addr, rfl⟩ := mem_latchObs ho
  rfl

omit [ObjectDictionary OD] in
/-- The recorded events of synchronous acyclic PDOs are latched. -/
theorem workInv_latchSyncEvents {m : Machine OD evt dirty} (h : WorkInv m) :
    WorkInv m.latchSyncEvents := by
  refine h.passive rfl latchObs_passive ?_
  have hmono := h.held.mono (List.subset_append_left (sinceLeave m.bus.trace)
    (latchObs (fun slot => slot.config.enabled && slot.config.transmissionType == 0)
      m.node.dirtySet m.node.tpdo.slots))
  refine ⟨hmono.dirtySet, ?_, hmono.refused, hmono.buffered, hmono.armed⟩
  show ∀ i l, ((m.node.tpdo.latchSyncEvents m.node.dirtySet).slots.map TpdoSlot.latches)[i]? =
    some l → _
  unfold TpdoEngine.latchSyncEvents
  split_ifs
  · exact hmono.latches
  · apply heldSince_latches
    intro i slot hslot hl
    unfold TpdoSlot.latchSyncEvent at hl
    split_ifs at hl with hevent
    · rw [Bool.and_eq_true] at hevent
      exact triggered_of_dirty h.held.dirtySet hslot hevent.1 (hasDirtyMapping_any hevent.2)
    · exact (h.triggered hslot hl).mono (List.subset_append_left _ _)

theorem pollWith_latches {od : OD} {nowUs : UInt64} {dirtySet : List (UInt16 × UInt8)} {σ : Type}
    {accept : ℕ → TpdoSlot → CanFrame → σ → Bool × σ} {slots : List TpdoSlot} {i k : ℕ} {s : σ}
    {slot' : TpdoSlot}
    (hget : (TpdoEngine.pollWith od nowUs dirtySet accept i slots s).1[k]? = some slot')
    (hl : slot'.latches ≠ (false, false)) :
    ∃ slot, slots[k]? = some slot ∧ (slot.latches ≠ (false, false) ∨
      (slot.isEventDriven = true ∧ slot.hasDirtyMapping dirtySet = true)) := by
  induction slots generalizing i k s with
  | nil => simp [TpdoEngine.pollWith] at hget
  | cons slot slots ih =>
    unfold TpdoEngine.pollWith at hget
    cases k with
    | succ k => exact ih hget
    | zero =>
      refine ⟨slot, rfl, ?_⟩
      have heq : (slot.pollWith od nowUs dirtySet (accept i) s).1 = slot' := Option.some.inj hget
      subst heq
      by_contra hno
      rw [not_or, not_not, not_and] at hno
      apply hl
      unfold TpdoSlot.pollWith
      split_ifs with hdriven
      · exact hno.1
      · have hclean : slot.latchDirty dirtySet = slot := by
          unfold TpdoSlot.latchDirty
          rw [if_neg (hno.2 (by simpa using hdriven))]
        dsimp only
        rw [hclean]
        split_ifs
        · split
          · dsimp only
            split_ifs
            · have hsync : slot.syncEventPending = false := (Prod.mk.inj hno.1).1
              simp [TpdoSlot.latches, TpdoSlot.sent, hsync]
            · exact hno.1
          · exact hno.1
        · exact hno.1

/-- An event-driven PDO is offered because of an event only when one is recorded. -/
theorem workInv_pollTpdo {m : Machine OD evt dirty} (h : WorkInv m) (nowUs : UInt64) :
    WorkInv (m.pollTpdo nowUs) := by
  unfold Machine.pollTpdo
  split_ifs
  · have hevent {k : ℕ} {slot : TpdoSlot} (hslot : m.node.tpdo.slots[k]? = some slot)
        (hcause : slot.latches ≠ (false, false) ∨ (slot.isEventDriven = true ∧
          slot.hasDirtyMapping m.node.dirtySet = true)) :
        Triggered (sinceLeave m.bus.trace ++
          latchObs TpdoSlot.isEventDriven m.node.dirtySet m.node.tpdo.slots) k := by
      rcases hcause with hl | ⟨hdriven, hdirty⟩
      · exact (h.triggered hslot hl).mono (List.subset_append_left _ _)
      · exact triggered_of_dirty h.held.dirtySet hslot hdriven (hasDirtyMapping_any hdirty)
    obtain ⟨obs, htrace, hobs⟩ := pollWith_trace m.node.od nowUs m.node.dirtySet m.state 0
      m.node.tpdo.slots (m.bus.log (latchObs TpdoSlot.isEventDriven m.node.dirtySet
        m.node.tpdo.slots))
    have hoffers : ∀ o ∈ obs, o.leaves = false ∧ RestsOn (sinceLeave m.bus.trace ++
        latchObs TpdoSlot.isEventDriven m.node.dirtySet m.node.tpdo.slots) o := by
      intro o ho
      obtain ⟨k, slot, hslot, application, frame, result, rfl, hcause⟩ := hobs o ho
      refine ⟨rfl, ?_⟩
      cases application with
      | false => trivial
      | true =>
        obtain ⟨hdriven, hasync | hdirty⟩ := hcause rfl
        · rw [Nat.zero_add]
          exact hevent hslot (.inl (by simp [TpdoSlot.latches, hasync]))
        · rw [Nat.zero_add]
          exact hevent hslot (.inr ⟨hdriven, hdirty⟩)
    have hlatch (o : Obs) (ho : o ∈ latchObs TpdoSlot.isEventDriven m.node.dirtySet
        m.node.tpdo.slots) : o.leaves = false := passive_not_leaves (latchObs_passive o ho)
    refine h.extend (htrace.trans (List.append_assoc _ _ _)) ?_ ?_ ?_
    · intro o ho
      rcases List.mem_append.mp ho with ho | ho
      · exact hlatch o ho
      · exact (hoffers o ho).1
    · apply supported_append (supported_passive _ latchObs_passive)
      rw [sinceFrom_of_not_cut hlatch]
      exact supported_of_forall restsOn_mono (fun o ho => (hoffers o ho).1)
        fun o ho => (hoffers o ho).2
    · rw [← List.append_assoc]
      have hmono := h.held.mono (List.subset_append_left (sinceLeave m.bus.trace)
        (latchObs TpdoSlot.isEventDriven m.node.dirtySet m.node.tpdo.slots))
      have hmono' := hmono.mono (List.subset_append_left _ obs)
      refine ⟨hmono'.dirtySet, ?_, hmono'.refused, hmono'.buffered, hmono'.armed⟩
      intro i l hget hl
      change (List.map TpdoSlot.latches _)[i]? = some l at hget
      rw [List.getElem?_map] at hget
      obtain ⟨slot', hslot', rfl⟩ := Option.map_eq_some_iff.mp hget
      obtain ⟨slot, hslot, hcause⟩ := pollWith_latches hslot' hl
      exact (hevent hslot hcause).mono (List.subset_append_left _ _)
  · exact h

end Transmit

/-! ## Application events -/

section Application

theorem latchEvent_latches {slot : TpdoSlot} (h : slot.latchEvent.latches ≠ (false, false)) :
    slot.latches ≠ (false, false) ∨ slot.takesEvents = true := by
  unfold TpdoSlot.latchEvent at h
  split_ifs at h with hdisabled hzero hevent
  · exact .inl h
  · exact .inr (by simp_all [TpdoSlot.takesEvents])
  · exact .inr (by rcases hevent with hevent | hevent <;> simp_all [TpdoSlot.takesEvents])
  · exact .inl h

omit [ObjectDictionary OD] in
theorem workInv_notifyChanged {m : Machine OD evt dirty} (h : WorkInv m) (index : UInt16)
    (subindex : UInt8) : WorkInv (m.notifyChanged index subindex) := by
  have hpassive : ∀ o ∈ .appEvent (.changed (index, subindex)) ::
      latchObs TpdoSlot.takesEvents [(index, subindex)] m.node.tpdo.slots, o.isPassive = true := by
    intro o ho
    rcases List.mem_cons.mp ho with rfl | ho
    · rfl
    · exact latchObs_passive o ho
  refine h.passive rfl hpassive ?_
  have hmono := h.held.mono (List.subset_append_left (sinceLeave m.bus.trace)
    (.appEvent (.changed (index, subindex)) ::
      latchObs TpdoSlot.takesEvents [(index, subindex)] m.node.tpdo.slots))
  refine ⟨?_, ?_, hmono.refused, hmono.buffered, hmono.armed⟩
  · intro addr hmem
    have hcases : addr ∈ m.node.dirtySet ∨ addr = (index, subindex) := by
      change addr ∈ (if _ then _ else _) at hmem
      split_ifs at hmem
      · exact .inl hmem
      · simpa using hmem
    rcases hcases with hold | rfl
    · exact hmono.dirtySet addr hold
    · simp
  · apply heldSince_latches
    intro i slot hslot hl
    split_ifs at hl with hmaps
    · rcases latchEvent_latches hl with hl | htakes
      · exact (h.triggered hslot hl).mono (List.subset_append_left _ _)
      · rw [Bool.and_eq_true] at hmaps
        have hdirty : [(index, subindex)].any slot.maps = true := by simp [hmaps.2]
        obtain ⟨addr, haddr, hlatched⟩ := latchObs_mem hslot htakes hdirty
        rw [List.mem_singleton] at haddr
        subst haddr
        exact ⟨.changed (index, subindex), by simp, by simp [hlatched]⟩
    · exact (h.triggered hslot hl).mono (List.subset_append_left _ _)

theorem workInv_odMut {m : Machine OD evt dirty} (h : WorkInv m) (f : OD → OD) :
    WorkInv (m.odMut f) := by
  refine h.passive rfl ?_ ?_
  · intro o ho
    obtain ⟨⟨slot, i⟩, -, ho⟩ := List.mem_flatMap.mp ho
    rcases List.mem_cons.mp ho with rfl | ho
    · rfl
    · split_ifs at ho
      · rw [List.mem_singleton] at ho
        rw [ho]
        rfl
      · cases ho
  · generalize hobs : List.flatMap _ _ = obs
    have hmono := h.held.mono (List.subset_append_left (sinceLeave m.bus.trace) obs)
    refine ⟨hmono.dirtySet, ?_, hmono.refused, hmono.buffered, hmono.armed⟩
    apply heldSince_latches
    intro i slot hslot hl
    split_ifs at hl with hchanged
    · rcases latchEvent_latches hl with hl | htakes
      · exact (h.triggered hslot hl).mono (List.subset_append_left _ _)
      · have hhit : (slot, i) ∈ m.node.tpdo.slots.zipIdx.filter fun p =>
            p.1.config.mappings.any (Machine.mappingChanged m.node.od (f m.node.od)) :=
          List.mem_filter.mpr ⟨List.mem_zipIdx_iff_getElem?.mpr hslot, hchanged⟩
        refine ⟨.odMut i, List.mem_append_right _ ?_, List.mem_append_right _ ?_⟩
        · rw [← hobs]
          exact List.mem_flatMap.mpr ⟨_, hhit, List.mem_cons_self⟩
        · rw [← hobs]
          exact List.mem_flatMap.mpr ⟨_, hhit, by simp [htakes]⟩
    · exact (h.triggered hslot hl).mono (List.subset_append_left _ _)

omit [ObjectDictionary OD] in
theorem workInv_clearDirty {m : Machine OD evt dirty} (h : WorkInv m) : WorkInv m.clearDirty := by
  refine h.passive (List.append_nil _).symm (by simp) ?_
  have hmono := h.held.mono (List.subset_append_left (sinceLeave m.bus.trace) [])
  exact ⟨by simp [Machine.clearDirty, Node.pdoWork], hmono.latches, hmono.refused, hmono.buffered,
    hmono.armed⟩

end Application

/-! ## Runs -/

/-- Every step keeps the invariant. -/
theorem workInv_step {allowed : (OD → OD) → Prop} (m m' : Machine OD evt dirty)
    (h : GatingInv m ∧ WorkInv m) (hs : Step allowed m m') : GatingInv m' ∧ WorkInv m' := by
  refine ⟨gatingInv_step m m' h.1 hs, ?_⟩
  cases hs with
  | quiet hq => exact workInv_quiet h.2 hq
  | boot nowUs hb =>
    apply workInv_boot h.2 _ hb
    by_contra hne
    rw [h.1.booted.mpr hne] at hb
    cases hb
  | channel i hch hstep => exact workInv_channel h.2 hstep
  | request i request nowUs hch serves free hr => exact workInv_request h.2 hr
  | stateChanged s hnew hne hold => exact workInv_stateChanged h.2 hne
  | reset resetType hr => exact workInv_reset h.2 hr
  | receiveRpdo i frame nowUs operational hslot => exact workInv_receiveRpdo h.2 hslot frame nowUs
  | pulse nowUs operational => exact workInv_sendPulse (workInv_applyPulse h.2) nowUs
  | retry nowUs => exact workInv_retry h.2 nowUs
  | deadlines nowUs => exact workInv_deadlines h.2 nowUs
  | pollTpdo nowUs => exact workInv_pollTpdo h.2 nowUs
  | latchSyncEvents => exact workInv_latchSyncEvents h.2
  | clearDirty => exact workInv_clearDirty h.2
  | notifyChanged index subindex => exact workInv_notifyChanged h.2 index subindex
  | odMut f _ => exact workInv_odMut h.2 f
  | storeErrorRegister emcy _ => exact h.2.of_work_eq rfl (List.append_nil _).symm (by simp)

theorem workInv_start {config : NodeConfig} {od : OD} {n : Node OD evt dirty}
    (h : Node.new config od = some n) : WorkInv (Machine.start n) := by
  obtain ⟨od', hread⟩ := new_reread h
  refine ⟨?_, trivial⟩
  show HeldSince _ n.pdoWork
  rw [hread.pdoWork]
  apply heldSince_of_empty
  · rfl
  · intro l hl
    obtain ⟨slot, hslot, rfl⟩ := List.mem_map.mp hl
    obtain ⟨c, -, rfl⟩ := List.mem_map.mp hslot
    rfl
  · rfl
  · intro p hp
    obtain ⟨slot, hslot, rfl⟩ := List.mem_map.mp hp
    obtain ⟨c, -, rfl⟩ := List.mem_map.mp hslot
    rfl

/-- In every run, PDO work rests on what happened since Operational was last left or the
node was reset: a frame applied to the dictionary was received since, a transmission
caused by an application event has an event recorded since, a synchronous PDO was
sampled since, a deadline that expires was armed since. The same holds of all work
the node still has. -/
theorem no_pdo_work_survives {config : NodeConfig} {od : OD} {n : Node OD evt dirty}
    (hn : Node.new config od = some n) {m : Machine OD evt dirty} (hm : Visited n m) :
    HeldSince (sinceLeave m.bus.trace) m.node.pdoWork ∧
    ∀ pre o post, m.bus.trace = pre ++ o :: post →
      (∀ i frame, o = .rpdoApplied i frame → .rpdoReceived i frame ∈ sinceLeave pre) ∧
      (∀ w state, o = .odWrite .rpdo w state → ∃ i frame, .rpdoApplied i frame ∈ sinceLeave pre) ∧
      (∀ i frame result state, o = .offer (.eventTpdo i true) frame result state →
        ∃ e, .appEvent e ∈ sinceLeave pre ∧ .latched i e ∈ sinceLeave pre) ∧
      (∀ i, o = .eventSampled i →
        ∃ e, .appEvent e ∈ sinceLeave pre ∧ .latched i e ∈ sinceLeave pre) ∧
      (∀ frame result state, o = .offer .syncTpdo frame result state →
        ∃ frames, .pulse frames ∈ sinceLeave pre ∧ frame ∈ frames) ∧
      (∀ i, o = .deadlineExpired i → ∃ frame, .rpdoReceived i frame ∈ sinceLeave pre) := by
  have hinv : GatingInv m ∧ WorkInv m :=
    visited_inv workInv_step hm ⟨gatingInv_start hn, workInv_start hn⟩
  refine ⟨hinv.2.held, ?_⟩
  intro pre o post htrace
  have hdone := hinv.2.done
  rw [htrace] at hdone
  have hrests : RestsOn (sinceLeave pre) o := hdone.at
  refine ⟨?_, ?_, ?_, ?_, ?_, ?_⟩
  · rintro i frame rfl
    exact hrests
  · rintro w state rfl
    exact hrests
  · rintro i frame result state rfl
    exact hrests
  · rintro i rfl
    exact hrests
  · rintro frame result state rfl
    exact hrests
  · rintro i rfl
    exact hrests

/-- The status word is reported as changed in Operational; Stop and Start follow in one
batch before the next transmission. -/
def stopStartCalls : List (Call Derive.GeneratedOd) :=
  [.process 0 [] [], .process 1000 [.literal 0x000 [0x01, 5]] [],
    .notifyChanged 0x6041 0,
    .process 2000 [.literal 0x000 [0x02, 5],
      .literal 0x000 [0x01, 5]] []]

theorem no_pdo_work_survives_stop_start :
    ∃ m, sampleRun stopStartCalls = some m ∧ m.state = .operational ∧
      .latched 0 (.changed (0x6041, 0)) ∈ m.bus.trace ∧
      HeldSince (sinceLeave m.bus.trace) m.node.pdoWork := by
  have hany : (sampleRun stopStartCalls).any (fun m => m.state == .operational &&
      m.bus.trace.contains (.latched 0 (.changed (0x6041, 0)))) = true := by
    decide
  obtain ⟨n, m, hn, hr, hm, hp⟩ := sampleRun_of_any hany
  rw [Bool.and_eq_true, beq_iff_eq] at hp
  exact ⟨m, hm, hp.1, by simpa using hp.2, (no_pdo_work_survives hn (.between hr)).1⟩

end Canopen
