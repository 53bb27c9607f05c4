import Canopen.Node.Steps
import Canopen.Sdo.Commit

/-!
# What the steps record

The observations each part of a step adds to the trace. `replay` reads the
dictionary writes back from them: a processing call changes the dictionary by
exactly the writes it records.
-/

namespace Canopen

open Pdo Sdo

variable {OD : Type} [ObjectDictionary OD] {evt dirty : ℕ}

/-! ## Offers -/

theorem transmitAll_trace (state : NmtState) (kind : FrameKind) (frames : List CanFrame) (b : Bus) :
    ∃ obs, (Bus.transmitAll state kind frames b).2.trace = b.trace ++ obs ∧
      ∀ o ∈ obs, ∃ frame ∈ frames, ∃ result, o = .offer kind frame result state := by
  induction frames generalizing b with
  | nil => exact ⟨[], by simp [Bus.transmitAll], by simp⟩
  | cons frame frames ih =>
    obtain ⟨obs, htrace, hobs⟩ := ih (b.transmit state kind frame).2
    refine ⟨.offer kind frame (b.answers.headD .accepted) state :: obs, ?_, ?_⟩
    · rw [Bus.transmitAll, htrace]
      simp [Bus.transmit]
    · intro o ho
      rcases List.mem_cons.mp ho with rfl | ho
      · exact ⟨frame, by simp, _, rfl⟩
      · obtain ⟨f, hf, hr⟩ := hobs o ho
        exact ⟨f, List.mem_cons_of_mem _ hf, hr⟩

theorem transmitAll_subset (state : NmtState) (kind : FrameKind) (frames : List CanFrame) (b : Bus) :
    ∀ f ∈ (Bus.transmitAll state kind frames b).1, f ∈ frames := by
  induction frames generalizing b with
  | nil => simp [Bus.transmitAll]
  | cons frame frames ih =>
    intro f hf
    rw [Bus.transmitAll] at hf
    dsimp only at hf
    split_ifs at hf
    · exact List.mem_cons_of_mem _ (ih _ f hf)
    · rcases List.mem_cons.mp hf with rfl | hf
      · exact List.mem_cons_self
      · exact List.mem_cons_of_mem _ (ih _ f hf)

theorem trySend_cases (state : NmtState) (i : ℕ) (ch : SdoChannel) (b : Bus) :
    (ch.trySend state i b = (ch, b)) ∨
    ∃ frame since result, ch.pending = some (frame, since) ∧
      (ch.trySend state i b).2.trace = b.trace ++ [.offer (.sdo i) frame result state] ∧
      (ch.trySend state i b).1 = if result = .accepted then { ch with pending := none }
        else { ch with refusedThisPoll := true } := by
  unfold SdoChannel.trySend
  split
  · next frame since hrefused hpending =>
    exact .inr ⟨frame, since, _, hpending, rfl, rfl⟩
  · exact .inl rfl

/-- A slot whose next transmission an application event causes: it holds one, or the
dirty set has one for it. -/
def Pdo.TpdoSlot.hasEvent (slot : TpdoSlot) (dirtySet : List (UInt16 × UInt8)) : Prop :=
  slot.isEventDriven = true ∧
    (slot.asyncEventPending = true ∨ slot.hasDirtyMapping dirtySet = true)

theorem latchDirty_async {slot : TpdoSlot} {dirtySet : List (UInt16 × UInt8)}
    (hdriven : slot.isEventDriven = true)
    (h : (slot.latchDirty dirtySet).asyncEventPending = true) : slot.hasEvent dirtySet := by
  unfold TpdoSlot.latchDirty at h
  split_ifs at h with hdirty
  · exact ⟨hdriven, .inr hdirty⟩
  · exact ⟨hdriven, .inl h⟩

theorem slotPollWith_trace (od : OD) (nowUs : UInt64) (dirtySet : List (UInt16 × UInt8))
    (state : NmtState) (i : ℕ) (slot : TpdoSlot) (b : Bus) :
    ∃ obs, (slot.pollWith od nowUs dirtySet (Machine.acceptTpdo state i) b).2.trace =
        b.trace ++ obs ∧
      ∀ o ∈ obs, ∃ application frame result,
        o = .offer (.eventTpdo i application) frame result state ∧
          (application = true → slot.hasEvent dirtySet) := by
  unfold TpdoSlot.pollWith
  split_ifs with hdriven
  · exact ⟨[], by simp, by simp⟩
  · have hdriven : slot.isEventDriven = true := by simpa using hdriven
    dsimp only
    split_ifs
    · split
      · next frame _ =>
        refine ⟨[.offer (.eventTpdo i (slot.latchDirty dirtySet).asyncEventPending) frame
          (b.answers.headD .accepted) state], rfl, ?_⟩
        intro o ho
        rw [List.mem_singleton] at ho
        exact ⟨_, _, _, ho, latchDirty_async hdriven⟩
      · exact ⟨[], by simp, by simp⟩
    · exact ⟨[], by simp, by simp⟩

/-- Polling the event-driven PDOs offers frames of their slots only. -/
theorem pollWith_trace (od : OD) (nowUs : UInt64) (dirtySet : List (UInt16 × UInt8))
    (state : NmtState) (i : ℕ) (slots : List TpdoSlot) (b : Bus) :
    ∃ obs, (TpdoEngine.pollWith od nowUs dirtySet (Machine.acceptTpdo state) i slots b).2.trace =
        b.trace ++ obs ∧
      ∀ o ∈ obs, ∃ k slot, slots[k]? = some slot ∧ ∃ application frame result,
        o = .offer (.eventTpdo (i + k) application) frame result state ∧
          (application = true → slot.hasEvent dirtySet) := by
  induction slots generalizing i b with
  | nil => exact ⟨[], by simp [TpdoEngine.pollWith], by simp⟩
  | cons slot slots ih =>
    obtain ⟨obs, htrace, hobs⟩ := slotPollWith_trace od nowUs dirtySet state i slot b
    obtain ⟨obs', htrace', hobs'⟩ :=
      ih (i + 1) (slot.pollWith od nowUs dirtySet (Machine.acceptTpdo state i) b).2
    refine ⟨obs ++ obs', ?_, ?_⟩
    · rw [TpdoEngine.pollWith, htrace', htrace, List.append_assoc]
    · intro o ho
      rcases List.mem_append.mp ho with ho | ho
      · exact ⟨0, slot, rfl, hobs o ho⟩
      · obtain ⟨k, slot', hget, application, frame, result, heq, hevent⟩ := hobs' o ho
        exact ⟨k + 1, slot', hget, application, frame, result, by rw [heq]; congr 2; omega, hevent⟩

/-! ## SDO channels -/

def Obs.ofChannel : Obs → Bool
  | .offer (.sdo _) _ _ _ => true
  | .sdoRequest _ _ _ => true
  | .sdoProduced _ _ _ => true
  | .sdoDiscarded _ _ _ _ => true
  | _ => false

theorem mem_discards {i : ℕ} {ch : SdoChannel} {reason : DiscardReason} {server : SdoServer}
    {o : Obs} (ho : o ∈ ch.discards i reason server) :
    ∃ frame r idle, o = .sdoDiscarded i frame r idle := by
  unfold SdoChannel.discards at ho
  split at ho
  · exact ⟨_, _, _, List.mem_singleton.mp ho⟩
  · cases ho

theorem mem_abortObs {sdo : List SdoChannel} {o : Obs} (ho : o ∈ abortObs sdo) :
    ∃ i frame reason idle, o = .sdoDiscarded i frame reason idle := by
  obtain ⟨l, hl, ho⟩ := List.mem_flatten.mp ho
  obtain ⟨⟨ch, i⟩, -, rfl⟩ := List.mem_map.mp hl
  exact ⟨i, mem_discards ho⟩

/-- What a step of a channel records. An offer needs a pending response. -/
theorem channelStep_trace {state : NmtState} {i : ℕ} {ch ch' : SdoChannel} {b b' : Bus}
    (h : ChannelStep state i ch b ch' b') :
    ∃ obs, b'.trace = b.trace ++ obs ∧ ∀ o ∈ obs,
      (∃ frame result, o = .offer (.sdo i) frame result state ∧ ch.pending.isSome) ∨
      (∃ data nowUs, o = .sdoProduced i data nowUs) ∨
      ∃ frame reason idle, o = .sdoDiscarded i frame reason idle := by
  cases h with
  | beginPoll nowUs =>
    unfold SdoChannel.beginPoll
    split_ifs
    · exact ⟨_, rfl, fun o ho => .inr (.inr (mem_discards ho))⟩
    · split
      · next server data _ =>
        refine ⟨_, rfl, ?_⟩
        intro o ho
        rcases List.mem_append.mp ho with ho | ho
        · exact .inr (.inr (mem_discards ho))
        · exact .inr (.inl ⟨data, nowUs, by simpa using ho⟩)
      · exact ⟨[], by simp, by simp⟩
  | trySend =>
    rcases trySend_cases state i ch b with heq | ⟨frame, since, result, hpend, htrace, -⟩
    · exact ⟨[], by simp [heq], by simp⟩
    · refine ⟨_, htrace, ?_⟩
      intro o ho
      exact .inl ⟨frame, result, by simpa using ho, by simp [hpend]⟩
  | nextSegment b free hpoll =>
    refine ⟨_, rfl, ?_⟩
    intro o ho
    exact .inr (.inl ⟨_, _, by simpa using ho⟩)

theorem channelStep_ofChannel {state : NmtState} {i : ℕ} {ch ch' : SdoChannel} {b b' : Bus}
    (h : ChannelStep state i ch b ch' b') :
    ∃ obs, b'.trace = b.trace ++ obs ∧ ∀ o ∈ obs, o.ofChannel = true := by
  obtain ⟨obs, htrace, hobs⟩ := channelStep_trace h
  refine ⟨obs, htrace, ?_⟩
  intro o ho
  rcases hobs o ho with ⟨frame, result, rfl, -⟩ | ⟨data, nowUs, rfl⟩ | ⟨frame, reason, idle, rfl⟩
  · rfl
  · rfl
  · rfl

theorem channelStep_idle {state : NmtState} {i : ℕ} {ch ch' : SdoChannel} {b b' : Bus}
    (h : ChannelStep state i ch b ch' b') (ht : ch.server.transfer = none)
    (hp : ch.pending = none) : ch'.server.transfer = none ∧ ch'.pending = none := by
  cases h with
  | beginPoll nowUs => simp [SdoChannel.beginPoll, SdoServer.checkTimeout, ht, hp]
  | trySend => simp [SdoChannel.trySend, ht, hp]
  | nextSegment b free hpoll => simp [SdoServer.pollBlockUpload, ht] at hpoll

/-- The steps of a channel keep its COB-IDs. -/
theorem channelStep_cobs {state : NmtState} {i : ℕ} {ch ch' : SdoChannel} {b b' : Bus}
    (hs : ChannelStep state i ch b ch' b') : ch'.cobRx = ch.cobRx ∧ ch'.cobTx = ch.cobTx := by
  cases hs with
  | beginPoll nowUs =>
    unfold SdoChannel.beginPoll
    split_ifs
    · exact ⟨rfl, rfl⟩
    · split <;> exact ⟨rfl, rfl⟩
  | trySend =>
    rcases trySend_cases state i ch b with heq | ⟨frame, since, result, -, -, heq⟩
    · rw [heq]
      exact ⟨rfl, rfl⟩
    · rw [heq]
      split_ifs <;> exact ⟨rfl, rfl⟩
  | nextSegment => exact ⟨rfl, rfl⟩

/-- The server's side of answering a request. -/
def Machine.served (m : Machine OD evt dirty) (ch : SdoChannel) (request : SdoFrame)
    (nowUs : UInt64) : SdoState OD evt × Option SdoFrame :=
  SdoState.processWithContext ⟨ch.server, m.node.od, m.node.eventQueue, []⟩ request
    (m.node.sdoContext nowUs)

/-- What a request records at once: itself, and the response an abort discards. -/
def Machine.requestHead (m : Machine OD evt dirty) (i : ℕ) (ch : SdoChannel) (request : SdoFrame)
    (nowUs : UInt64) : List Obs :=
  .sdoRequest i request nowUs ::
    if request.b0 = 0x80 then
      ch.discards i .clientAbort (m.served ch request nowUs).1.server
    else []

/-- What answering a request records before the answer is queued. -/
def Machine.requestObs (m : Machine OD evt dirty) (i : ℕ) (ch : SdoChannel) (request : SdoFrame)
    (nowUs : UInt64) : List Obs :=
  m.requestHead i ch request nowUs ++
    (m.served ch request nowUs).1.writes.map fun w => .odWrite (.sdo i) w m.state

theorem requestHead_ofChannel {m : Machine OD evt dirty} {i : ℕ} {ch : SdoChannel}
    {request : SdoFrame} {nowUs : UInt64} :
    ∀ o ∈ m.requestHead i ch request nowUs, o.ofChannel = true := by
  intro o ho
  rcases List.mem_cons.mp ho with rfl | ho
  · rfl
  · split_ifs at ho
    · obtain ⟨frame, reason, idle, rfl⟩ := mem_discards ho
      rfl
    · cases ho

/-- The channel before the answer is queued. -/
def Machine.requestChannel (m : Machine OD evt dirty) (ch : SdoChannel) (request : SdoFrame)
    (nowUs : UInt64) : SdoChannel :=
  { ch with
    server := (m.served ch request nowUs).1.server.takeCommittedWrite.1
    pending := if request.b0 = 0x80 then none else ch.pending }

/-- Answering a request: the bookkeeping, then the answer is queued and offered. -/
theorem answerRequest_cases (m : Machine OD evt dirty) (i : ℕ) (ch : SdoChannel)
    (request : SdoFrame) (nowUs : UInt64) :
    ∃ ch' b', (m.answerRequest i ch request nowUs).1.node.sdo = m.node.sdo.set i ch' ∧
      (m.answerRequest i ch request nowUs).1.bus = b' ∧
      (((m.served ch request nowUs).2 = none ∧ ch' = m.requestChannel ch request nowUs ∧
        b' = m.bus.log (m.requestObs i ch request nowUs)) ∨
      ∃ data, (m.served ch request nowUs).2 = some data ∧
        (ch', b') = ((m.requestChannel ch request nowUs).queue data nowUs).trySend m.state i
          ((m.bus.log (m.requestObs i ch request nowUs)).log [.sdoProduced i data nowUs])) := by
  refine ⟨_, _, rfl, rfl, ?_⟩
  cases hr : (m.served ch request nowUs).2 with
  | none =>
    unfold Machine.served at hr
    refine .inl ⟨rfl, ?_, ?_⟩
    · simp only [hr]
      rfl
    · simp only [Machine.answerRequest, hr]
      rfl
  | some data =>
    unfold Machine.served at hr
    refine .inr ⟨data, rfl, ?_⟩
    simp only [Machine.answerRequest, hr]
    rfl

/-! ## Re-reading the configuration -/

/-- The application events a transmit PDO holds. -/
def Pdo.TpdoSlot.latches (slot : TpdoSlot) : Bool × Bool :=
  (slot.syncEventPending, slot.asyncEventPending)

/-- The frame a receive PDO holds, and whether its deadline is watched. -/
def Pdo.RpdoSlot.held (slot : RpdoSlot) : Option CanFrame × Bool :=
  (slot.pending, slot.armed)

/-- What re-reading the configuration leaves as it is. -/
structure Reread (n n' : Node OD evt dirty) : Prop where
  nodeId : n'.nodeId = n.nodeId
  od : n'.od = n.od
  nmt : n'.nmt = n.nmt
  sdo : n'.sdo = n.sdo
  pendingSyncTpdo : n'.pendingSyncTpdo = n.pendingSyncTpdo
  booted : n'.booted = n.booted
  dirtySet : n'.dirtySet = n.dirtySet
  latches : n'.tpdo.slots.map TpdoSlot.latches = n.tpdo.slots.map TpdoSlot.latches
  held : n'.rpdo.slots.map RpdoSlot.held = n.rpdo.slots.map RpdoSlot.held

section Reread

theorem syncTpdoSlots_latches (od : OD) (k : ℕ) (slots : List TpdoSlot) (b : ReadBufs) :
    (syncTpdoSlots od k slots b).1.map TpdoSlot.latches = slots.map TpdoSlot.latches := by
  induction slots generalizing k b with
  | nil => rfl
  | cons slot slots ih =>
    simp only [syncTpdoSlots, List.map_cons, ih]
    rfl

theorem syncRpdoSlots_held (od : OD) (k : ℕ) (slots : List RpdoSlot) (b : ReadBufs) :
    (syncRpdoSlots od k slots b).1.map RpdoSlot.held = slots.map RpdoSlot.held := by
  induction slots generalizing k b with
  | nil => rfl
  | cons slot slots ih =>
    simp only [syncRpdoSlots, List.map_cons, ih]
    rfl

theorem syncPdoFromOd_reread (n : Node OD evt dirty) : Reread n n.syncPdoFromOd where
  nodeId := rfl
  od := rfl
  nmt := rfl
  sdo := rfl
  pendingSyncTpdo := rfl
  booted := rfl
  dirtySet := rfl
  latches := syncTpdoSlots_latches n.od 0 n.tpdo.slots .zero
  held := syncRpdoSlots_held n.od 0 n.rpdo.slots _

theorem syncHeartbeatFromOd_reread (n : Node OD evt dirty) (preserve : Bool) :
    Reread n (n.syncHeartbeatFromOd preserve) := by
  constructor <;> rfl

theorem syncConfigFromOd_reread {n n' : Node OD evt dirty} (h : n.syncConfigFromOd = some n') :
    Reread n n' := by
  obtain ⟨p, -, rfl⟩ := Option.map_eq_some_iff.mp h
  constructor <;> rfl

omit [ObjectDictionary OD] in
theorem Reread.trans {n n' n'' : Node OD evt dirty} (h : Reread n n') (h' : Reread n' n'') :
    Reread n n'' where
  nodeId := h'.nodeId.trans h.nodeId
  od := h'.od.trans h.od
  nmt := h'.nmt.trans h.nmt
  sdo := h'.sdo.trans h.sdo
  pendingSyncTpdo := h'.pendingSyncTpdo.trans h.pendingSyncTpdo
  booted := h'.booted.trans h.booted
  dirtySet := h'.dirtySet.trans h.dirtySet
  latches := h'.latches.trans h.latches
  held := h'.held.trans h.held

omit [ObjectDictionary OD] in
theorem reread_refl (n : Node OD evt dirty) : Reread n n := by
  constructor <;> rfl

theorem resyncAfter_reread {n n' : Node OD evt dirty} {index : UInt16}
    (h : n.resyncAfter index = some n') : Reread n n' := by
  unfold Node.resyncAfter at h
  dsimp only at h
  have hpdo : Reread n (if isPdoConfigIndex index then n.syncPdoFromOd else n) := by
    split_ifs
    · exact syncPdoFromOd_reread n
    · exact reread_refl n
  generalize (if isPdoConfigIndex index then n.syncPdoFromOd else n) = n₁ at h hpdo
  have hheartbeat : Reread n₁
      (if index = 0x1016 ∨ index = 0x1017 then n₁.syncHeartbeatFromOd true else n₁) := by
    split_ifs
    · exact syncHeartbeatFromOd_reread n₁ true
    · exact reread_refl n₁
  generalize (if index = 0x1016 ∨ index = 0x1017 then n₁.syncHeartbeatFromOd true else n₁) = n₂
    at h hheartbeat
  split_ifs at h
  · exact hpdo.trans (hheartbeat.trans (syncConfigFromOd_reread h))
  · cases h
    exact hpdo.trans hheartbeat

theorem resync_reread {m m' : Machine OD evt dirty} {committed : Option (UInt16 × UInt8)}
    (h : m.resync committed = some m') : Reread m.node m'.node ∧ m'.bus = m.bus := by
  unfold Machine.resync at h
  cases committed with
  | none =>
    cases h
    exact ⟨reread_refl m.node, rfl⟩
  | some p =>
    obtain ⟨n, hn, rfl⟩ := Option.map_eq_some_iff.mp h
    exact ⟨resyncAfter_reread hn, rfl⟩

/-- The observations of a request: its own, its writes, and those of its channel. -/
theorem request_trace {m m' : Machine OD evt dirty} {i : ℕ} {ch : SdoChannel}
    {request : SdoFrame} {nowUs : UInt64}
    (hr : (m.answerRequest i ch request nowUs).1.resync
      (m.answerRequest i ch request nowUs).2 = some m') :
    ∃ obs, m'.bus.trace = m.bus.trace ++ (m.requestObs i ch request nowUs ++ obs) ∧
      ∀ o ∈ obs, o.ofChannel = true := by
  obtain ⟨-, hbus⟩ := resync_reread hr
  obtain ⟨ch', b', -, hb, ⟨-, -, rfl⟩ | ⟨data, -, hsend⟩⟩ := answerRequest_cases m i ch request nowUs
  · exact ⟨[], by rw [hbus, hb, List.append_nil]; rfl, by simp⟩
  · have hstep : ChannelStep m.state i ((m.requestChannel ch request nowUs).queue data nowUs)
        ((m.bus.log (m.requestObs i ch request nowUs)).log [.sdoProduced i data nowUs]) _ _ :=
      .trySend _ _
    rw [← hsend] at hstep
    obtain ⟨obs, htrace, hobs⟩ := channelStep_ofChannel hstep
    refine ⟨.sdoProduced i data nowUs :: obs, ?_, ?_⟩
    · rw [hbus, hb, htrace]
      simp [Bus.log]
    · intro o ho
      rcases List.mem_cons.mp ho with rfl | ho
      · rfl
      · exact hobs o ho

theorem new_reread {config : NodeConfig} {od : OD} {n : Node OD evt dirty}
    (h : Node.new config od = some n) :
    ∃ od', Reread { (Node.initial config od : Node OD evt dirty) with od := od' } n := by
  obtain ⟨n', hn', hunique⟩ := Option.bind_eq_some_iff.mp h
  have heq : n' = n := by
    split_ifs at hunique
    exact Option.some.inj hunique
  subst heq
  exact ⟨_, (syncHeartbeatFromOd_reread _ false).trans (syncConfigFromOd_reread hn')⟩

end Reread

/-! ## Boot and reset -/

omit [ObjectDictionary OD] in
/-- The two outcomes of offering the boot-up frame: a full transmit queue, or the node
is running. -/
theorem boot_cases {m : Machine OD evt dirty} (hb : m.node.booted = false) (nowUs : UInt64) :
    ∃ heartbeat frame result,
      ((m.boot nowUs).1.node = { m.node with heartbeat := heartbeat } ∧
        (m.boot nowUs).1.bus.trace = m.bus.trace ++ [.offer .bootUp frame result m.state]) ∨
      ∃ nmt : NmtHandler, nmt.state.servesSdo = true ∧
        (m.boot nowUs).1.node = { m.node with heartbeat := heartbeat, booted := true, nmt := nmt } ∧
        (m.boot nowUs).1.bus.trace = m.bus.trace ++ [.offer .bootUp frame result m.state,
          .nmt m.state nmt.state (m.node.sdo.any SdoChannel.pdoDownload)] := by
  refine ⟨(m.node.heartbeat.sendBoot nowUs).1, (m.node.heartbeat.sendBoot nowUs).2,
    m.bus.answers.headD .accepted, ?_⟩
  unfold Machine.boot
  rw [if_neg (by simp [hb])]
  dsimp only
  by_cases hblock : (m.bus.transmit m.state .bootUp (m.node.heartbeat.sendBoot nowUs).2).1 =
      .wouldBlock
  · rw [if_pos hblock]
    exact .inl ⟨rfl, rfl⟩
  · rw [if_neg hblock]
    refine .inr ⟨_, ?_, rfl, by simp [Machine.setNmt, Machine.log, Bus.log, Bus.transmit]; rfl⟩
    split_ifs
    · rfl
    · rfl

/-- What a reset leaves behind. -/
structure ResetDone (resetType : ResetType) (m m' : Machine OD evt dirty) : Prop where
  nodeId : m'.node.nodeId = m.node.nodeId
  od : m'.node.od = m.node.od
  state : m'.state = .initializing
  sdo : m'.node.sdo = m.node.sdo.map SdoChannel.abort
  booted : m'.node.booted = false
  pendingSyncTpdo : m'.node.pendingSyncTpdo = []
  dirtySet : m'.node.dirtySet = []
  latches : ∀ slot ∈ m'.node.tpdo.slots, slot.latches = (false, false)
  held : ∀ slot ∈ m'.node.rpdo.slots, slot.held = (none, false)
  trace : m'.bus.trace = m.bus.trace ++
    (abortObs m.node.sdo ++ [.reset resetType])

theorem requestReset_done {m m' : Machine OD evt dirty} {resetType : ResetType}
    (h : m.requestReset resetType = some m') : ResetDone resetType m m' := by
  unfold Machine.requestReset Machine.reset Node.resetSyncState at h
  obtain ⟨n, hn, rfl⟩ := Option.map_eq_some_iff.mp h
  obtain ⟨n', hn', rfl⟩ := Option.map_eq_some_iff.mp hn
  have hread := (syncPdoFromOd_reread _).trans
    ((syncHeartbeatFromOd_reread _ false).trans (syncConfigFromOd_reread hn'))
  constructor
  · exact hread.nodeId
  · exact hread.od
  · exact congrArg NmtHandler.state hread.nmt
  · exact hread.sdo
  · exact hread.booted
  · rfl
  · rfl
  · intro slot hslot
    obtain ⟨s, -, rfl⟩ := List.mem_map.mp hslot
    rfl
  · intro slot hslot
    obtain ⟨s, hs, rfl⟩ := List.mem_map.mp hslot
    obtain ⟨s', -, rfl⟩ := List.mem_map.mp hs
    rfl
  · simp [Machine.log, Bus.log, Machine.abortAllSdoTransfers]

/-! ## State changes -/

section StateChanged

omit [ObjectDictionary OD]

variable (m : Machine OD evt dirty) (s : NmtState)

/-- What a change of the state records. -/
def Machine.stateChangedObs : List Obs :=
  .nmt m.state s (m.node.sdo.any SdoChannel.pdoDownload) ::
    if s = .stopped then abortObs m.node.sdo else []

theorem stateChanged_node :
    (m.stateChanged ⟨s⟩).node =
      let n := { m.node with nmt := ⟨s⟩ }
      if s = .operational then n
      else if s = .stopped then
        { n.leaveOperational with sdo := m.node.sdo.map SdoChannel.abort }
      else n.leaveOperational := by
  unfold Machine.stateChanged
  dsimp only
  split_ifs <;> rfl

theorem stateChanged_trace :
    (m.stateChanged ⟨s⟩).bus.trace = m.bus.trace ++ m.stateChangedObs s := by
  unfold Machine.stateChanged Machine.stateChangedObs
  dsimp only
  by_cases ho : s = .operational
  · subst ho
    simp [Machine.setNmt, Machine.log, Bus.log]
  · rw [if_neg ho]
    split_ifs
    · simp [Machine.setNmt, Machine.log, Bus.log, Machine.abortAllSdoTransfers,
        Node.leaveOperational]
    · simp [Machine.setNmt, Machine.log, Bus.log]

@[simp] theorem stateChanged_state : (m.stateChanged ⟨s⟩).state = s := by
  rw [Machine.state, stateChanged_node]
  dsimp only
  split_ifs <;> rfl

@[simp] theorem stateChanged_booted : (m.stateChanged ⟨s⟩).node.booted = m.node.booted := by
  rw [stateChanged_node]
  dsimp only
  split_ifs <;> rfl

@[simp] theorem stateChanged_od : (m.stateChanged ⟨s⟩).node.od = m.node.od := by
  rw [stateChanged_node]
  dsimp only
  split_ifs <;> rfl

theorem stateChanged_sdo :
    (m.stateChanged ⟨s⟩).node.sdo =
      if s = .stopped then m.node.sdo.map SdoChannel.abort else m.node.sdo := by
  rw [stateChanged_node]
  dsimp only
  by_cases ho : s = .operational
  · subst ho
    rfl
  · rw [if_neg ho]
    split_ifs <;> rfl

end StateChanged

/-! ## PDO stages -/

section PdoStages

omit [ObjectDictionary OD]

/-- The refused synchronous PDOs are kept, dropped, or offered once more. -/
theorem retryPendingSyncTpdo_cases (m : Machine OD evt dirty) (nowUs : UInt64) :
    (m.retryPendingSyncTpdo nowUs = m) ∨
    (m.retryPendingSyncTpdo nowUs =
      { m with node := { m.node with pendingSyncTpdo := [], syncTpdoLastAttemptUs := none } }) ∨
    (m.state = .operational ∧ ∃ last, m.retryPendingSyncTpdo nowUs =
      ⟨{ m.node with
          pendingSyncTpdo :=
            (Bus.transmitAll m.state .syncTpdo m.node.pendingSyncTpdo m.bus).1
          syncTpdoLastAttemptUs := last },
        (Bus.transmitAll m.state .syncTpdo m.node.pendingSyncTpdo m.bus).2⟩) := by
  unfold Machine.retryPendingSyncTpdo
  dsimp only
  by_cases hempty : m.node.pendingSyncTpdo.isEmpty
  · exact .inl (if_pos hempty)
  rw [if_neg hempty]
  by_cases hleave : m.state ≠ .operational ∨ (!m.node.syncWindow.allowsTransmit nowUs) = true
  · exact .inr (.inl (if_pos hleave))
  rw [if_neg hleave]
  by_cases hsame : m.node.syncTpdoLastAttemptUs = some nowUs
  · exact .inl (if_pos hsame)
  rw [if_neg hsame]
  have hop : m.state = .operational := by
    by_contra hne
    exact hleave (.inl hne)
  exact .inr (.inr ⟨hop, _, rfl⟩)

theorem pushEvents_node (n : Node OD evt dirty) (numbers : List UInt16) :
    ∃ queue count, numbers.foldl
      (fun n number => n.pushEvent ⟨0x1400 + (number - 1), 0, .rpdoDeadline⟩) n =
        { n with eventQueue := queue, eventOverflowCount := count } := by
  induction numbers generalizing n with
  | nil => exact ⟨n.eventQueue, n.eventOverflowCount, rfl⟩
  | cons number numbers ih =>
    obtain ⟨queue, count, heq⟩ := ih (n.pushEvent ⟨0x1400 + (number - 1), 0, .rpdoDeadline⟩)
    exact ⟨queue, count, heq⟩

/-- Overdue receive PDOs are reported, or PDO work is discarded. -/
theorem checkDeadlines_cases (m : Machine OD evt dirty) (nowUs : UInt64) :
    (m.state = .operational ∧ ∃ queue count, m.checkDeadlines nowUs =
      ⟨{ m.node with
          rpdo := m.node.rpdo.checkDeadlines nowUs
          eventQueue := queue
          eventOverflowCount := count },
        m.bus.log ((m.node.rpdo.overdueSlots nowUs).map fun p => .deadlineExpired p.1)⟩) ∨
    (m.state ≠ .operational ∧
      m.checkDeadlines nowUs = { m with node := m.node.leaveOperational }) := by
  unfold Machine.checkDeadlines
  by_cases hop : m.state = .operational
  · rw [if_pos hop]
    obtain ⟨queue, count, heq⟩ := pushEvents_node
      { m.node with rpdo := m.node.rpdo.checkDeadlines nowUs }
      ((m.node.rpdo.overdueSlots nowUs).filterMap fun p => RpdoEngine.reportedNumber p.1 p.2)
    refine .inl ⟨hop, queue, count, ?_⟩
    exact congrArg (fun n => (⟨n, m.bus⟩ : Machine OD evt dirty).log
      ((m.node.rpdo.overdueSlots nowUs).map fun p => .deadlineExpired p.1)) heq
  · exact .inr ⟨hop, if_neg hop⟩

end PdoStages

/-! ## Dictionary writes -/

/-- The dictionary after the recorded writes. -/
def replay (od : OD) (obs : List Obs) : OD :=
  obs.foldl (fun od o => match o with
    | .odWrite _ w _ => (ObjectDictionary.write od w.index w.subindex w.data).2
    | _ => od) od

theorem replay_append (od : OD) (obs obs' : List Obs) :
    replay od (obs ++ obs') = replay (replay od obs) obs' := by
  simp [replay]

theorem replay_of_no_write (od : OD) {obs : List Obs}
    (h : ∀ o ∈ obs, ∀ source w state, o ≠ .odWrite source w state) : replay od obs = od := by
  induction obs generalizing od with
  | nil => rfl
  | cons o obs ih =>
    have hrest := ih (h := fun o' ho' => h o' (List.mem_cons_of_mem _ ho'))
    cases o with
    | odWrite source w state => exact absurd rfl (h _ List.mem_cons_self source w state)
    | _ => exact hrest od

/-- The dictionary after a list of writes, accepted or not. -/
def replayWrites (od : OD) (writes : List OdWrite) : OD :=
  writes.foldl (fun od w => (ObjectDictionary.write od w.index w.subindex w.data).2) od

theorem replay_writes (od : OD) (source : WriteSource) (state : NmtState) (writes : List OdWrite) :
    replay od (writes.map fun w => .odWrite source w state) = replayWrites od writes := by
  simp [replay, replayWrites, List.foldl_map]

theorem processWithContext_replay (server : SdoServer) (od : OD) (events : Deque OdEvent evt)
    (request : SdoFrame) (ctx : SdoContext) :
    (SdoState.processWithContext ⟨server, od, events, []⟩ request ctx).1.od =
      replayWrites od (SdoState.processWithContext ⟨server, od, events, []⟩ request ctx).1.writes := by
  rcases processWithContext_cases ⟨server, od, events, []⟩ request ctx with
    ⟨hsame, -⟩ | ⟨index, subindex, data, success, -, heq⟩
  · rw [hsame.od, hsame.writes]
    rfl
  · rw [heq]
    rcases commitDownload_cases ⟨server, od, events, []⟩ ctx index subindex data success with
      ⟨code, -, h⟩ | ⟨e, code, -, -, h⟩ | ⟨-, -, h⟩ <;> rw [h] <;> rfl

/-- The log of the `write` calls that lead from one dictionary to another. -/
inductive Wrote (od : OD) : List OdWrite → OD → Prop
  | nil : Wrote od [] od
  | write {ws : List OdWrite} {od' : OD} (h : Wrote od ws od') (index : UInt16) (subindex : UInt8)
    (data : List UInt8) :
    Wrote od (ws ++ [⟨index, subindex, data, (ObjectDictionary.write od' index subindex data).1.isOk⟩])
      (ObjectDictionary.write od' index subindex data).2

theorem Wrote.replay {od od' : OD} {ws : List OdWrite} (h : Wrote od ws od') :
    od' = replayWrites od ws := by
  induction h with
  | nil => rfl
  | write _ index subindex data ih =>
    unfold replayWrites at ih ⊢
    rw [List.foldl_append, ← ih]
    rfl

/-- The writes of a received PDO are logged as they are made. -/
theorem applyMapped_wrote (data : List UInt8) (mappings : List PdoMapping) (bitOffset : ℕ)
    {od : OD} {s : RpdoState OD evt} (h : Wrote od s.writes s.od) :
    Wrote od (applyMapped data mappings bitOffset s).writes
      (applyMapped data mappings bitOffset s).od := by
  induction mappings generalizing bitOffset s with
  | nil => exact h
  | cons m ms ih =>
    unfold applyMapped
    dsimp only
    split_ifs
    · exact h
    · exact ih _ h
    · apply ih
      unfold RpdoState.writeObject
      dsimp only
      split_ifs <;> exact h.write m.index m.subindex _

theorem onSync_wrote (slots : List RpdoSlot) {od : OD} {s : RpdoState OD evt}
    (h : Wrote od s.writes s.od) :
    Wrote od (RpdoEngine.onSync slots s).2.writes (RpdoEngine.onSync slots s).2.od := by
  induction slots generalizing s with
  | nil => exact h
  | cons slot slots ih =>
    unfold RpdoEngine.onSync
    apply ih
    cases slot.pending with
    | none => exact h
    | some frame => exact applyMapped_wrote _ _ _ h

theorem onSync_slots (slots : List RpdoSlot) (s : RpdoState OD evt) :
    (RpdoEngine.onSync slots s).1 = slots.map ({ · with pending := none }) := by
  induction slots generalizing s with
  | nil => rfl
  | cons slot slots ih =>
    unfold RpdoEngine.onSync
    exact congrArg (List.cons { slot with pending := none }) (ih _)

/-- The dictionary changed by exactly the writes recorded in between. -/
def Replayed (m m' : Machine OD evt dirty) : Prop :=
  ∃ obs, m'.bus.trace = m.bus.trace ++ obs ∧ m'.node.od = replay m.node.od obs

theorem Replayed.trans {m m' m'' : Machine OD evt dirty} (h : Replayed m m')
    (h' : Replayed m' m'') : Replayed m m'' := by
  obtain ⟨obs, htrace, hod⟩ := h
  obtain ⟨obs', htrace', hod'⟩ := h'
  refine ⟨obs ++ obs', ?_, ?_⟩
  · rw [htrace', htrace, List.append_assoc]
  · rw [hod', hod, replay_append]

/-! ## All steps -/

/-- What an observation says about the step from `m` to `m'` that made it. -/
def Accounted (m m' : Machine OD evt dirty) : Obs → Prop
  | .odWrite (.sdo i) w state => state = m.state ∧ ∃ ch request nowUs,
      m.node.sdo[i]? = some ch ∧ w ∈ (m.served ch request nowUs).1.writes
  | .odWrite .rpdo _ state => state = m.state ∧ m.state = .operational
  | .nmt old new pdoDownload => old = m.state ∧ new = m'.state ∧
      pdoDownload = m.node.sdo.any SdoChannel.pdoDownload
  | _ => True

/-- A step with what it records, in order; only the application changes the dictionary
without a record. -/
def Recorded (allowed : (OD → OD) → Prop) (m m' : Machine OD evt dirty) : Prop :=
  ∃ obs, m'.bus.trace = m.bus.trace ++ obs ∧ (∀ o ∈ obs, Accounted m m' o) ∧
    (m'.node.od = replay m.node.od obs ∨ ∃ f, allowed f ∧ m'.node.od = f m.node.od)

variable {allowed : (OD → OD) → Prop}

/-- Observations of other services, neither writes nor state changes. -/
def Obs.isOther : Obs → Bool
  | .odWrite _ _ _ => false
  | .nmt _ _ _ => false
  | _ => true

theorem accounted_of_isOther (m m' : Machine OD evt dirty) {o : Obs} (h : o.isOther = true) :
    Accounted m m' o := by
  cases o with
  | odWrite source w state => cases h
  | nmt old new pdoDownload => cases h
  | _ => trivial

theorem replay_of_isOther (od : OD) {obs : List Obs} (h : ∀ o ∈ obs, o.isOther = true) :
    replay od obs = od := by
  apply replay_of_no_write
  rintro o ho source w state rfl
  cases h _ ho

theorem recorded_of_other {m m' : Machine OD evt dirty} (hod : m'.node.od = m.node.od)
    {obs : List Obs} (htrace : m'.bus.trace = m.bus.trace ++ obs)
    (hobs : ∀ o ∈ obs, o.isOther = true) : Recorded allowed m m' := by
  refine ⟨obs, htrace, ?_, .inl ?_⟩
  · intro o ho
    exact accounted_of_isOther m m' (hobs o ho)
  · rw [hod, replay_of_isOther _ hobs]

/-- A recorded step may go on with other services. -/
theorem Recorded.then_other {m m₁ m₂ : Machine OD evt dirty} (h : Recorded allowed m m₁)
    (hod : m₂.node.od = m₁.node.od) (hstate : m₂.state = m₁.state) {obs : List Obs}
    (htrace : m₂.bus.trace = m₁.bus.trace ++ obs) (hobs : ∀ o ∈ obs, o.isOther = true) :
    Recorded allowed m m₂ := by
  obtain ⟨obs₁, htrace₁, hacc, hod₁⟩ := h
  refine ⟨obs₁ ++ obs, ?_, ?_, ?_⟩
  · rw [htrace, htrace₁, List.append_assoc]
  · intro o ho
    rcases List.mem_append.mp ho with ho | ho
    · have ho₁ := hacc o ho
      unfold Accounted at ho₁ ⊢
      rwa [hstate]
    · exact accounted_of_isOther _ _ (hobs o ho)
  · rwa [hod, replay_append, replay_of_isOther _ hobs]

theorem recorded_commitRpdo {m : Machine OD evt dirty} (operational : m.state = .operational)
    (slots : List RpdoSlot) {s : RpdoState OD evt} (hs : Wrote m.node.od s.writes s.od)
    {obs : List Obs} (hobs : ∀ o ∈ obs, o.isOther = true) :
    Recorded allowed m (m.commitRpdo slots s obs) := by
  refine ⟨_, rfl, ?_, .inl ?_⟩
  · intro o ho
    rcases List.mem_append.mp ho with ho | ho
    · exact accounted_of_isOther _ _ (hobs o ho)
    · obtain ⟨w, -, rfl⟩ := List.mem_map.mp ho
      exact ⟨rfl, operational⟩
  · rw [replay_append, replay_of_isOther _ hobs, replay_writes]
    exact hs.replay

theorem mem_latchObs {selected : TpdoSlot → Bool} {dirtySet : List (UInt16 × UInt8)}
    {slots : List TpdoSlot} {o : Obs} (ho : o ∈ latchObs selected dirtySet slots) :
    ∃ i addr, o = .latched i (.changed addr) := by
  obtain ⟨⟨slot, i⟩, -, ho⟩ := List.mem_filterMap.mp ho
  dsimp only at ho
  split_ifs at ho
  obtain ⟨addr, -, rfl⟩ := Option.map_eq_some_iff.mp ho
  exact ⟨i, addr, rfl⟩

theorem mem_appliedObs {slots : List RpdoSlot} {o : Obs} (ho : o ∈ appliedObs slots) :
    ∃ i slot frame, o = .rpdoApplied i frame ∧ slots[i]? = some slot ∧
      slot.pending = some frame := by
  obtain ⟨⟨slot, i⟩, hmem, ho⟩ := List.mem_filterMap.mp ho
  obtain ⟨frame, hframe, rfl⟩ := Option.map_eq_some_iff.mp ho
  exact ⟨i, slot, frame, rfl, List.mem_zipIdx_iff_getElem?.mp hmem, hframe⟩

theorem mem_sampledObs {slots : List TpdoSlot} {o : Obs} (ho : o ∈ sampledObs slots) :
    ∃ i slot, o = .eventSampled i ∧ slots[i]? = some slot ∧ slot.syncEventPending = true := by
  obtain ⟨⟨slot, i⟩, hmem, ho⟩ := List.mem_filterMap.mp ho
  dsimp only at ho
  split_ifs at ho with hdue
  cases ho
  rw [Bool.and_eq_true] at hdue
  exact ⟨i, slot, rfl, List.mem_zipIdx_iff_getElem?.mp hmem, hdue.2⟩

theorem sendPulse_trace (m : Machine OD evt dirty) (nowUs : UInt64) :
    ∃ obs, (m.sendPulse nowUs).bus.trace = m.bus.trace ++
        (sampledObs m.node.tpdo.slots ++ .pulse (m.node.tpdo.onSync m.node.od).2 :: obs) ∧
      ∀ o ∈ obs, ∃ frame ∈ (m.node.tpdo.onSync m.node.od).2, ∃ result,
        o = .offer .syncTpdo frame result m.state := by
  obtain ⟨obs, htrace, hobs⟩ := transmitAll_trace m.state .syncTpdo
    (m.node.tpdo.onSync m.node.od).2 (m.bus.log (sampledObs m.node.tpdo.slots ++
      [.pulse (m.node.tpdo.onSync m.node.od).2]))
  refine ⟨obs, ?_, hobs⟩
  rw [Machine.sendPulse]
  dsimp only
  rw [htrace]
  simp [Bus.log]

theorem isOther_of_channel {o : Obs} (h : o.ofChannel = true) : o.isOther = true := by
  cases o with
  | odWrite source w state => cases h
  | nmt old new pdoDownload => cases h
  | _ => rfl

theorem recorded_request {m m' : Machine OD evt dirty} {i : ℕ} {ch : SdoChannel}
    {request : SdoFrame} {nowUs : UInt64} (hch : m.node.sdo[i]? = some ch)
    (hr : (m.answerRequest i ch request nowUs).1.resync
      (m.answerRequest i ch request nowUs).2 = some m') : Recorded allowed m m' := by
  obtain ⟨obs, htrace, hobs⟩ := request_trace hr
  have hother : ∀ o ∈ obs, o.isOther = true := fun o ho => isOther_of_channel (hobs o ho)
  have hhead : ∀ o ∈ m.requestHead i ch request nowUs, o.isOther = true :=
    fun o ho => isOther_of_channel (requestHead_ofChannel o ho)
  refine ⟨_, htrace, ?_, .inl ?_⟩
  · intro o ho
    rcases List.mem_append.mp ho with ho | ho
    · rcases List.mem_append.mp ho with ho | ho
      · exact accounted_of_isOther _ _ (hhead o ho)
      · obtain ⟨w, hw, rfl⟩ := List.mem_map.mp ho
        exact ⟨rfl, ch, request, nowUs, hch, hw⟩
    · exact accounted_of_isOther _ _ (hother o ho)
  · rw [(resync_reread hr).1.od, replay_append, replay_of_isOther _ hother, Machine.requestObs,
      replay_append, replay_of_isOther _ hhead, replay_writes]
    exact processWithContext_replay ch.server m.node.od m.node.eventQueue request _

theorem step_recorded {m m' : Machine OD evt dirty} (hs : Step allowed m m') :
    Recorded allowed m m' := by
  cases hs with
  | quiet hq =>
    obtain ⟨obs, htrace, hobs⟩ := hq.trace
    apply recorded_of_other hq.od htrace
    intro o ho
    obtain ⟨kind, frame, result, rfl, -⟩ := hobs o ho
    rfl
  | boot nowUs hb =>
    obtain ⟨heartbeat, frame, result, ⟨hnode, htrace⟩ | ⟨nmt, -, hnode, htrace⟩⟩ :=
      boot_cases hb nowUs
    · apply recorded_of_other (by rw [hnode]) htrace
      simp [Obs.isOther]
    · refine ⟨_, htrace, ?_, .inl ?_⟩
      · intro o ho
        simp only [List.mem_cons, List.not_mem_nil, or_false] at ho
        rcases ho with rfl | rfl
        · trivial
        · exact ⟨rfl, by rw [Machine.state, hnode], rfl⟩
      · rw [hnode]
        rfl
  | channel i hch hstep =>
    obtain ⟨obs, htrace, hobs⟩ := channelStep_ofChannel hstep
    exact recorded_of_other rfl htrace fun o ho => isOther_of_channel (hobs o ho)
  | request i request nowUs hch serves free hr => exact recorded_request hch hr
  | stateChanged s hnew hne hold =>
    have hdiscarded : ∀ o ∈ (if s = .stopped then abortObs m.node.sdo else []),
        o.isOther = true := by
      intro o ho
      split_ifs at ho
      · obtain ⟨i, frame, reason, idle, rfl⟩ := mem_abortObs ho
        rfl
      · cases ho
    refine ⟨_, stateChanged_trace m s, ?_, .inl ?_⟩
    · intro o ho
      rcases List.mem_cons.mp ho with rfl | ho
      · exact ⟨rfl, (stateChanged_state m s).symm, rfl⟩
      · exact accounted_of_isOther _ _ (hdiscarded o ho)
    · rw [stateChanged_od]
      exact (replay_of_isOther _ hdiscarded).symm
  | reset resetType hr =>
    have hdone := requestReset_done hr
    apply recorded_of_other hdone.od hdone.trace
    intro o ho
    rcases List.mem_append.mp ho with ho | ho
    · obtain ⟨i, frame, reason, idle, rfl⟩ := mem_abortObs ho
      rfl
    · rw [List.mem_singleton] at ho
      rw [ho]
      rfl
  | receiveRpdo i frame nowUs operational hslot =>
    unfold Machine.receiveRpdo
    dsimp only
    split_ifs
    · exact recorded_of_other rfl rfl (by simp)
    · exact recorded_of_other rfl rfl (by simp [Obs.isOther])
    · exact recorded_commitRpdo operational _ (applyMapped_wrote _ _ _ .nil) (by simp [Obs.isOther])
  | pulse nowUs operational =>
    have happlied : Recorded allowed m m.applyPulse := by
      apply recorded_commitRpdo operational _ (onSync_wrote _ .nil)
      intro o ho
      obtain ⟨i, slot, frame, rfl, -⟩ := mem_appliedObs ho
      rfl
    obtain ⟨obs, htrace, hobs⟩ := sendPulse_trace m.applyPulse nowUs
    refine happlied.then_other rfl rfl htrace ?_
    intro o ho
    rcases List.mem_append.mp ho with ho | ho
    · obtain ⟨i, slot, rfl, -⟩ := mem_sampledObs ho
      rfl
    · rcases List.mem_cons.mp ho with rfl | ho
      · rfl
      · obtain ⟨frame, -, result, rfl⟩ := hobs o ho
        rfl
  | retry nowUs =>
    rcases retryPendingSyncTpdo_cases m nowUs with heq | heq | ⟨-, last, heq⟩
    · exact recorded_of_other (by rw [heq]) (by rw [heq, List.append_nil]) (by simp)
    · exact recorded_of_other (by rw [heq]) (by rw [heq, List.append_nil]) (by simp)
    · obtain ⟨obs, htrace, hobs⟩ :=
        transmitAll_trace m.state .syncTpdo m.node.pendingSyncTpdo m.bus
      apply recorded_of_other (by rw [heq]) (by rw [heq, htrace])
      intro o ho
      obtain ⟨frame, -, result, rfl⟩ := hobs o ho
      rfl
  | deadlines nowUs =>
    rcases checkDeadlines_cases m nowUs with ⟨-, queue, count, heq⟩ | ⟨-, heq⟩
    · apply recorded_of_other (by rw [heq]) (by rw [heq]; rfl)
      intro o ho
      obtain ⟨p, -, rfl⟩ := List.mem_map.mp ho
      rfl
    · exact recorded_of_other (by rw [heq]; rfl) (by rw [heq, List.append_nil]) (by simp)
  | pollTpdo nowUs =>
    unfold Machine.pollTpdo
    split_ifs
    · obtain ⟨obs, htrace, hobs⟩ := pollWith_trace m.node.od nowUs m.node.dirtySet m.state 0
        m.node.tpdo.slots (m.bus.log (latchObs TpdoSlot.isEventDriven m.node.dirtySet
          m.node.tpdo.slots))
      refine recorded_of_other rfl (htrace.trans (List.append_assoc _ _ _)) ?_
      intro o ho
      rcases List.mem_append.mp ho with ho | ho
      · obtain ⟨i, addr, rfl⟩ := mem_latchObs ho
        rfl
      · obtain ⟨k, slot, -, application, frame, result, rfl, -⟩ := hobs o ho
        rfl
    · exact recorded_of_other rfl (List.append_nil _).symm (by simp)
  | latchSyncEvents =>
    refine recorded_of_other rfl rfl ?_
    intro o ho
    obtain ⟨i, addr, rfl⟩ := mem_latchObs ho
    rfl
  | clearDirty => exact recorded_of_other rfl (List.append_nil _).symm (by simp)
  | notifyChanged index subindex =>
    refine recorded_of_other rfl rfl ?_
    intro o ho
    rcases List.mem_cons.mp ho with rfl | ho
    · rfl
    · obtain ⟨i, addr, rfl⟩ := mem_latchObs ho
      rfl
  | odMut f h =>
    refine ⟨_, rfl, ?_, .inr ⟨f, h, rfl⟩⟩
    intro o ho
    obtain ⟨⟨slot, i⟩, -, ho⟩ := List.mem_flatMap.mp ho
    rcases List.mem_cons.mp ho with rfl | ho
    · trivial
    · split_ifs at ho
      · rw [List.mem_singleton] at ho
        subst ho
        trivial
      · cases ho
  | storeErrorRegister emcy h =>
    exact ⟨[], (List.append_nil _).symm, by simp, .inr ⟨_, h, rfl⟩⟩

theorem steps_replayed {m m' : Machine OD evt dirty} (hs : Steps (fun _ => False) m m') :
    Replayed m m' := by
  induction hs with
  | refl => exact ⟨[], (List.append_nil _).symm, rfl⟩
  | tail _ hlast ih =>
    apply ih.trans
    obtain ⟨obs, htrace, -, hod | ⟨f, hf, -⟩⟩ := step_recorded hlast
    · exact ⟨obs, htrace, hod⟩
    · exact hf.elim

theorem process_replayed {m m' : Machine OD evt dirty} {nowUs : UInt64} {rx : List CanFrame}
    (h : m.process nowUs rx = some m') : Replayed m m' :=
  steps_replayed (process_steps h)

end Canopen
