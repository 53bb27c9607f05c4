import Canopen.Lib.Retry
import Canopen.Node.PdoIdle

/-!
# Retries of refused synchronous PDOs

The frames sampled on a SYNC pulse are a batch that is offered in rounds: on the pulse,
and again in the transmit stage of later calls while the synchronous window is open.
`InBatch` ties what the node holds to the rounds of the batch.
-/

namespace Canopen

open Derive Pdo Retry Sdo

variable {OD : Type} [ObjectDictionary OD] {evt dirty : ℕ}

/-- A frame offered as a synchronous PDO, and whether the transport took it. -/
def Obs.syncOffer : Obs → Option (CanFrame × Bool)
  | .offer .syncTpdo frame result _ => some (frame, result == .accepted)
  | _ => none

/-- The time of an action and the length of the synchronous window (0x1007). -/
structure SyncStamp where
  nowUs : Option UInt64
  windowUs : UInt64
  deriving DecidableEq, Repr

/-- The synchronous window of a pulse has not elapsed; its end is inside. -/
def SyncStamp.InWindow (pulseUs : UInt64) (s : SyncStamp) : Prop :=
  s.windowUs = 0 ∨ ∀ nowUs, s.nowUs = some nowUs → nowUs - pulseUs ≤ s.windowUs

def SyncStamp.instant (s : SyncStamp) : ℕ := (s.nowUs.getD 0).toNat

namespace Machine

/-- The synchronous PDOs an action offers. -/
def syncRound (m : Machine OD evt dirty) (a : Action OD) : Round CanFrame SyncStamp :=
  ⟨⟨a.nowUs, m.node.syncWindow.lengthUs⟩, (m.observed a).filterMap Obs.syncOffer⟩

/-- No pulse, and the node is Operational afterwards. -/
def betweenPulses (m : Machine OD evt dirty) (a : Action OD) : Bool :=
  !m.isSyncPulse a && (m.act a).any (·.state == .operational)

/-- The rounds of a sequence of actions. -/
abbrev syncRounds (m : Machine OD evt dirty) (l : List (Action OD)) :
    List (Round CanFrame SyncStamp) :=
  Runs.log act (fun m a => [m.syncRound a]) m l

end Machine

section Observed

variable {m m' : Machine OD evt dirty} {a : Action OD} {obs : List Obs}

theorem syncOffer_of_not_pdo {o : Obs} (h : o.ofPdo = false) : o.syncOffer = none := by
  unfold Obs.syncOffer
  split
  · cases h
  · rfl

end Observed

/-! ## Offering a batch -/

section Offers

omit [ObjectDictionary OD]

theorem transmitAll_offers (state : NmtState) (kind : FrameKind) (frames : List CanFrame) (b : Bus) :
    ∃ answers : List (CanFrame × TxResult), answers.map Prod.fst = frames ∧
      (Bus.transmitAll state kind frames b).2.trace =
        b.trace ++ answers.map (fun p => .offer kind p.1 p.2 state) ∧
      (Bus.transmitAll state kind frames b).1 =
        (answers.filter (fun p => !(p.2 == .accepted))).map Prod.fst := by
  induction frames generalizing b with
  | nil => exact ⟨[], rfl, (List.append_nil _).symm, rfl⟩
  | cons frame frames ih =>
    obtain ⟨answers, hframes, htrace, hrefused⟩ := ih (b.transmit state kind frame).2
    refine ⟨(frame, b.answers.headD .accepted) :: answers, ?_, ?_, ?_⟩
    · rw [List.map_cons, hframes]
    · rw [Bus.transmitAll, htrace]
      simp [Bus.transmit]
    · rw [Bus.transmitAll, List.filter_cons]
      dsimp only
      rw [hrefused]
      change (if b.answers.headD .accepted = .accepted then _ else _) = _
      by_cases haccepted : b.answers.headD .accepted = .accepted
      · rw [if_pos haccepted, haccepted]
        rfl
      · rw [if_neg haccepted, if_pos (by simpa using haccepted), List.map_cons]

theorem transmitAll_round (state : NmtState) (frames : List CanFrame) (b : Bus) :
    ∃ offers : List Obs, (Bus.transmitAll state .syncTpdo frames b).2.trace = b.trace ++ offers ∧
      (∀ o ∈ offers, o.sampled = none) ∧
      ∀ stamp : SyncStamp, (⟨stamp, offers.filterMap Obs.syncOffer⟩ : Round _ _).offered = frames ∧
        (⟨stamp, offers.filterMap Obs.syncOffer⟩ : Round _ _).refused =
          (Bus.transmitAll state .syncTpdo frames b).1 := by
  obtain ⟨answers, hframes, htrace, hrefused⟩ := transmitAll_offers state .syncTpdo frames b
  have hoffers : (answers.map fun p => (.offer .syncTpdo p.1 p.2 state : Obs)).filterMap
      Obs.syncOffer = answers.map fun p => (p.1, p.2 == .accepted) := by
    rw [List.filterMap_map]
    exact congrFun List.filterMap_eq_map answers
  refine ⟨_, htrace, ?_, ?_⟩
  · intro o ho
    obtain ⟨p, -, rfl⟩ := List.mem_map.mp ho
    rfl
  · intro stamp
    rw [hoffers, hrefused]
    refine ⟨?_, ?_⟩
    · rw [Round.offered, List.map_map, ← hframes]
      rfl
    · rw [Round.refused, List.filter_map, List.map_map]
      rfl

end Offers

/-! ## What leaves a batch alone -/

/-- The refused frames, the time of the last attempt and the window. -/
def Node.syncWork (n : Node OD evt dirty) : List CanFrame × Option UInt64 × UInt64 × Bool :=
  (n.pendingSyncTpdo, n.syncTpdoLastAttemptUs, n.syncWindow.openedAtUs, n.syncWindow.active)

/-- No synchronous PDO is offered, and the refused ones stay. -/
def SyncKept (m m' : Machine OD evt dirty) : Prop :=
  m'.node.syncWork = m.node.syncWork ∧
    ∃ obs, m'.bus.trace = m.bus.trace ++ obs ∧ obs.filterMap Obs.syncOffer = []

section Kept

variable {m m' m'' : Machine OD evt dirty}

omit [ObjectDictionary OD] in
theorem SyncKept.trans (h : SyncKept m m') (h' : SyncKept m' m'') : SyncKept m m'' := by
  obtain ⟨hwork, obs, htrace, hobs⟩ := h
  obtain ⟨hwork', obs', htrace', hobs'⟩ := h'
  refine ⟨hwork'.trans hwork, obs ++ obs', ?_, ?_⟩
  · rw [htrace', htrace, List.append_assoc]
  · rw [List.filterMap_append, hobs, hobs', List.append_nil]

omit [ObjectDictionary OD] in
theorem SyncKept.refused (h : SyncKept m m') :
    m'.node.pendingSyncTpdo = m.node.pendingSyncTpdo :=
  congrArg Prod.fst h.1

omit [ObjectDictionary OD] in
theorem syncKept_of_trace {obs : List Obs} (hwork : m'.node.syncWork = m.node.syncWork)
    (htrace : m'.bus.trace = m.bus.trace ++ obs) (hobs : ∀ o ∈ obs, o.syncOffer = none) :
    SyncKept m m' :=
  ⟨hwork, obs, htrace, List.filterMap_eq_nil_iff.mpr hobs⟩

omit [ObjectDictionary OD] in
theorem syncKept_of_quietPdo (hwork : m'.node.syncWork = m.node.syncWork) (h : QuietPdo m m') :
    SyncKept m m' := by
  obtain ⟨obs, htrace, hobs⟩ := h
  exact syncKept_of_trace hwork htrace fun o ho => syncOffer_of_not_pdo (hobs o ho)

omit [ObjectDictionary OD] in
theorem syncWork_of_runtime {n n' : Node OD evt dirty} (h : n'.pdoRuntime = n.pdoRuntime) :
    n'.syncWork = n.syncWork := by
  have hwork (n : Node OD evt dirty) : n.syncWork = (n.pdoRuntime.refused,
    n.pdoRuntime.lastAttemptUs, n.pdoRuntime.windowOpenedUs, n.pdoRuntime.windowActive) := rfl
  rw [hwork, hwork, h]

omit [ObjectDictionary OD] in
theorem Untouched.syncKept (h : Untouched m m') : SyncKept m m' :=
  syncKept_of_quietPdo (syncWork_of_runtime h.runtime) h.trace

omit [ObjectDictionary OD] in
theorem Notified.syncKept {changes : TpdoSlot → Bool} (h : Notified m m' changes) :
    SyncKept m m' := by
  refine syncKept_of_quietPdo ?_ h.trace
  change (m'.node.pdoRuntime.refused, m'.node.pdoRuntime.lastAttemptUs,
    m'.node.pdoRuntime.windowOpenedUs, m'.node.pdoRuntime.windowActive) = _
  rw [h.runtime]
  rfl

theorem receiveRpdo_syncKept (m : Machine OD evt dirty) (i : ℕ) (slot : RpdoSlot)
    (frame : CanFrame) (nowUs : UInt64) : SyncKept m (m.receiveRpdo i slot frame nowUs) := by
  obtain ⟨obs, htrace, hobs⟩ := receiveRpdo_trace m i slot frame nowUs
  refine syncKept_of_trace ?_ htrace ?_
  · unfold Machine.receiveRpdo
    dsimp only
    split_ifs <;> rfl
  · intro o ho
    rcases hobs o ho with rfl | hquiet
    · rfl
    · exact syncOffer_of_not_pdo hquiet

omit [ObjectDictionary OD] in
theorem latchSyncEvents_syncKept (m : Machine OD evt dirty) : SyncKept m m.latchSyncEvents := by
  refine syncKept_of_trace rfl rfl ?_
  intro o ho
  obtain ⟨i, addr, rfl⟩ := mem_latchObs ho
  rfl

omit [ObjectDictionary OD] in
theorem checkDeadlines_syncKept (hop : m.state = .operational) (nowUs : UInt64) :
    SyncKept m (m.checkDeadlines nowUs) := by
  obtain ⟨-, queue, count, heq⟩ | ⟨hne, -⟩ := checkDeadlines_cases m nowUs
  · rw [heq]
    refine syncKept_of_trace rfl rfl ?_
    intro o ho
    obtain ⟨p, -, rfl⟩ := List.mem_map.mp ho
    rfl
  · exact absurd hop hne

theorem pollTpdo_syncKept (m : Machine OD evt dirty) (nowUs : UInt64) :
    SyncKept m (m.pollTpdo nowUs) := by
  unfold Machine.pollTpdo
  split_ifs
  · obtain ⟨obs, htrace, hobs⟩ := pollWith_trace m.node.od nowUs m.node.dirtySet m.state 0
      m.node.tpdo.slots (m.bus.log (latchObs TpdoSlot.isEventDriven m.node.dirtySet
        m.node.tpdo.slots))
    refine syncKept_of_trace rfl (htrace.trans (List.append_assoc _ _ _)) ?_
    intro o ho
    rcases List.mem_append.mp ho with ho | ho
    · obtain ⟨i, addr, rfl⟩ := mem_latchObs ho
      rfl
    · obtain ⟨k, slot, -, application, frame, result, rfl, -⟩ := hobs o ho
      rfl
  · exact syncKept_of_trace rfl (List.append_nil _).symm (by simp)

omit [ObjectDictionary OD] in
theorem clearDirty_syncKept (m : Machine OD evt dirty) : SyncKept m m.clearDirty :=
  syncKept_of_trace rfl (List.append_nil _).symm (by simp)

theorem stages_syncKept (m : Machine OD evt dirty) (nowUs : UInt64) :
    SyncKept m
      ((((m.sendHeartbeat nowUs).checkHeartbeats nowUs).sendEmcy.pollTpdo nowUs).clearDirty) := by
  apply (sendHeartbeat_untouched m nowUs).syncKept.trans
  apply (checkHeartbeats_untouched _ nowUs).syncKept.trans
  apply (sendEmcy_untouched _).syncKept.trans
  exact (pollTpdo_syncKept _ nowUs).trans (clearDirty_syncKept _)

theorem finishStages_syncKept {nowUs : UInt64}
    (hop : (m.retryPendingSyncTpdo nowUs).state = .operational) :
    SyncKept (m.retryPendingSyncTpdo nowUs) (m.finishStages nowUs) := by
  unfold Machine.finishStages
  exact (checkDeadlines_syncKept hop nowUs).trans (stages_syncKept _ nowUs)

omit [ObjectDictionary OD] in
theorem retryPendingSyncTpdo_nil (h : m.node.pendingSyncTpdo = []) (nowUs : UInt64) :
    m.retryPendingSyncTpdo nowUs = m := by
  unfold Machine.retryPendingSyncTpdo
  dsimp only
  rw [if_pos (by rw [h]; rfl)]

end Kept

/-! ## The batch of a pulse -/

/-- What a node in Operational holds of the batch sampled at `pulseUs`: the frames that
wait for another round, or nothing since the window has elapsed. -/
structure InBatch (pulseUs : UInt64) (sampled : List CanFrame)
    (rounds : List (Round CanFrame SyncStamp)) (m : Machine OD evt dirty) : Prop where
  operational : m.state = .operational
  opened : m.node.syncWindow.openedAtUs = pulseUs ∧ m.node.syncWindow.active = true
  held : ∃ waiting last, Rounds SyncStamp.instant (SyncStamp.InWindow pulseUs) sampled rounds
      waiting last ∧
    ((m.node.pendingSyncTpdo = waiting ∧ (waiting ≠ [] → last.nowUs.isSome ∧
        m.node.syncTpdoLastAttemptUs = last.nowUs)) ∨
      (m.node.pendingSyncTpdo = [] ∧ ∃ r ∈ rounds, ¬ r.stamp.InWindow pulseUs))

section Batch

variable {m m' : Machine OD evt dirty} {a : Action OD} {pulseUs : UInt64}
  {sampled : List CanFrame} {rounds : List (Round CanFrame SyncStamp)}

theorem syncRound_idle (ha : m.act a = some m') (h : SyncKept m m') :
    (m.syncRound a).offers = [] := by
  obtain ⟨-, obs, htrace, hobs⟩ := h
  rw [Machine.syncRound, observed_eq ha htrace, hobs]

/-- An action that offers nothing and keeps what was refused. -/
theorem InBatch.idle (h : InBatch pulseUs sampled rounds m) (ha : m.act a = some m')
    (hop : m'.state = .operational) (hkept : SyncKept m m') :
    InBatch pulseUs sampled (rounds ++ [m.syncRound a]) m' := by
  have hidle := syncRound_idle ha hkept
  obtain ⟨hwork, -⟩ := hkept
  simp only [Node.syncWork, Prod.mk.injEq] at hwork
  obtain ⟨hrefused, hattempt, hopened, hactive⟩ := hwork
  obtain ⟨waiting, last, hrounds, hheld⟩ := h.held
  refine ⟨hop, ?_, waiting, last, hrounds.idle hidle, ?_⟩
  · rw [hopened, hactive]
    exact h.opened
  · rw [hrefused, hattempt]
    apply hheld.imp id
    rintro ⟨hnil, r, hr, hclosed⟩
    exact ⟨hnil, r, List.mem_append_left _ hr, hclosed⟩

/-- A pulse begins a batch with the frames it samples. -/
theorem pulse_inBatch (hp : m.isSyncPulse a = true) (ha : m.act a = some m') :
    ∃ pulseUs sampled, a.nowUs = some pulseUs ∧ (m.observed a).filterMap Obs.sampled = [sampled] ∧
      InBatch pulseUs sampled [m.syncRound a] m' := by
  rw [Machine.isSyncPulse, Bool.and_eq_true, beq_iff_eq] at hp
  obtain ⟨m₁, nowUs, hnow, hquiet, -, rfl⟩ := pulse_eq hp.2 hp.1 ha
  obtain ⟨obs, htrace, hobs⟩ := quietPdo_of_quiet hquiet
  obtain ⟨applied, happlied, hbefore⟩ := applyPulse_trace m₁
  have hstate : m₁.applyPulse.state = .operational := by
    change m₁.node.nmt.state = .operational
    rw [hquiet.nmt]
    exact hp.1
  generalize m₁.applyPulse = m₂ at *
  obtain ⟨offers, hoffers, hsampled, hround⟩ := transmitAll_round m₂.state
    (m₂.node.tpdo.onSync m₂.node.od).2 (m₂.bus.log (sampledObs m₂.node.tpdo.slots ++
      [.pulse (m₂.node.tpdo.onSync m₂.node.od).2]))
  generalize hframes : (m₂.node.tpdo.onSync m₂.node.od).2 = frames at *
  have hobserved : m.observed a =
      (obs ++ applied ++ sampledObs m₂.node.tpdo.slots) ++ .pulse frames :: offers := by
    apply observed_eq ha
    have hsent : (m₂.sendPulse nowUs).bus.trace = (m₂.bus.log
        (sampledObs m₂.node.tpdo.slots ++ [.pulse frames])).trace ++ offers := by
      rw [Machine.sendPulse]
      dsimp only
      rw [hframes]
      exact hoffers
    rw [hsent, Bus.log, happlied, htrace]
    simp only [List.append_assoc, List.cons_append, List.nil_append]
  have hnone : ∀ o ∈ obs ++ applied ++ sampledObs m₂.node.tpdo.slots, o.ofPdo = false := by
    intro o ho
    rcases List.mem_append.mp ho with ho | ho
    · rcases List.mem_append.mp ho with ho | ho
      · exact hobs o ho
      · exact hbefore o ho
    · obtain ⟨i, slot, rfl, -⟩ := mem_sampledObs ho
      rfl
  have hround' : m.syncRound a =
      ⟨⟨some nowUs, m.node.syncWindow.lengthUs⟩, offers.filterMap Obs.syncOffer⟩ := by
    rw [Machine.syncRound, hobserved, List.filterMap_append,
      List.filterMap_eq_nil_iff.mpr fun o ho => syncOffer_of_not_pdo (hnone o ho), hnow]
    rfl
  obtain ⟨hoffered, hrefused⟩ := hround ⟨some nowUs, m.node.syncWindow.lengthUs⟩
  rw [← hround'] at hoffered hrefused
  have hpending : (m₂.sendPulse nowUs).node.pendingSyncTpdo = (m.syncRound a).refused := by
    rw [hrefused, Machine.sendPulse, hframes]
  refine ⟨nowUs, frames, hnow, ?_, hstate, ⟨rfl, rfl⟩, _, _, .first hoffered, .inl ⟨hpending, ?_⟩⟩
  · rw [hobserved, List.filterMap_append,
      List.filterMap_eq_nil_iff.mpr fun o ho => sampled_of_not_pdo (hnone o ho)]
    change [] ++ frames :: offers.filterMap Obs.sampled = [frames]
    rw [List.filterMap_eq_nil_iff.mpr hsampled]
    rfl
  · intro hne
    rw [hround']
    refine ⟨rfl, ?_⟩
    change (if (m₂.sendPulse nowUs).node.pendingSyncTpdo.isEmpty then _ else _) = _
    rw [hpending, if_neg (by simpa using hne)]

omit [ObjectDictionary OD] in
/-- The retries of a transmit stage in Operational: the window has elapsed, nothing is
offered, or everything that waits is offered again. -/
theorem retry_cases (hop : m.state = .operational) (nowUs : UInt64) :
    (m.node.syncWindow.allowsTransmit nowUs = false ∧
      m.retryPendingSyncTpdo nowUs = { m with node := { m.node with
        pendingSyncTpdo := [], syncTpdoLastAttemptUs := none } }) ∨
    m.retryPendingSyncTpdo nowUs = m ∨
    (m.node.pendingSyncTpdo ≠ [] ∧ m.node.syncWindow.allowsTransmit nowUs = true ∧
      m.node.syncTpdoLastAttemptUs ≠ some nowUs ∧
      let t := Bus.transmitAll m.state .syncTpdo m.node.pendingSyncTpdo m.bus
      m.retryPendingSyncTpdo nowUs = ⟨{ m.node with
        pendingSyncTpdo := t.1
        syncTpdoLastAttemptUs := if t.1.isEmpty then none else some nowUs }, t.2⟩) := by
  unfold Machine.retryPendingSyncTpdo
  dsimp only
  by_cases hempty : m.node.pendingSyncTpdo.isEmpty
  · exact .inr (.inl (if_pos hempty))
  rw [if_neg hempty]
  cases hallows : m.node.syncWindow.allowsTransmit nowUs with
  | false => exact .inl ⟨rfl, if_pos (.inr rfl)⟩
  | true =>
    have hstay : ¬ (m.state ≠ .operational ∨ (!true) = true) := by simp [hop]
    rw [if_neg hstay]
    by_cases hsame : m.node.syncTpdoLastAttemptUs = some nowUs
    · exact .inr (.inl (if_pos hsame))
    · rw [if_neg hsame]
      exact .inr (.inr ⟨by simpa using hempty, rfl, hsame, rfl⟩)

theorem allowsTransmit_iff {w : SyncWindow} (hactive : w.active = true) (nowUs : UInt64) :
    w.allowsTransmit nowUs = true ↔
      SyncStamp.InWindow w.openedAtUs ⟨some nowUs, w.lengthUs⟩ := by
  simp [SyncWindow.allowsTransmit, hactive, SyncStamp.InWindow]

/-- The transmit stage. -/
theorem InBatch.finish (h : InBatch pulseUs sampled rounds m) {nowUs : UInt64}
    (hop' : (m.finishStages nowUs).state = .operational) :
    InBatch pulseUs sampled (rounds ++ [m.syncRound (.finish nowUs)]) (m.finishStages nowUs) := by
  have ha : m.act (.finish nowUs) = some (m.finishStages nowUs) := rfl
  have hkept : SyncKept (m.retryPendingSyncTpdo nowUs) (m.finishStages nowUs) :=
    finishStages_syncKept ((retryPendingSyncTpdo_state m nowUs).trans h.operational)
  have hwindow := allowsTransmit_iff h.opened.2 nowUs
  rw [h.opened.1] at hwindow
  obtain ⟨waiting, last, hrounds, hheld⟩ := h.held
  rcases retry_cases h.operational nowUs with ⟨helapsed, heq⟩ | heq | ⟨hne, hallows, hlater, heq⟩
  · obtain ⟨hwork, obs, htrace, hobs⟩ := hkept
    rw [heq] at hwork htrace
    simp only [Node.syncWork, Prod.mk.injEq] at hwork
    obtain ⟨hrefused, -, hopened, hactive⟩ := hwork
    have hidle : (m.syncRound (.finish nowUs)).offers = [] := by
      rw [Machine.syncRound, observed_eq ha htrace, hobs]
    refine ⟨hop', ?_, waiting, last, hrounds.idle hidle, .inr ⟨hrefused, _,
      List.mem_append_right _ (List.mem_singleton_self _), ?_⟩⟩
    · rw [hopened, hactive]
      exact h.opened
    · intro hin
      rw [hwindow.mpr hin] at helapsed
      cases helapsed
  · rw [heq] at hkept
    exact h.idle ha hop' hkept
  · obtain ⟨hwork, obs, htrace, hobs⟩ := hkept
    obtain ⟨offers, hoffers, -, hround⟩ := transmitAll_round m.state m.node.pendingSyncTpdo m.bus
    dsimp only at heq
    rw [heq] at hwork htrace
    dsimp only at htrace
    rw [hoffers, List.append_assoc] at htrace
    have hround' : m.syncRound (.finish nowUs) =
        ⟨⟨some nowUs, m.node.syncWindow.lengthUs⟩, offers.filterMap Obs.syncOffer⟩ := by
      rw [Machine.syncRound, observed_eq ha htrace, List.filterMap_append, hobs, List.append_nil]
      rfl
    obtain ⟨hoffered, hrefused⟩ := hround ⟨some nowUs, m.node.syncWindow.lengthUs⟩
    rw [← hround'] at hoffered hrefused
    simp only [Node.syncWork, Prod.mk.injEq] at hwork
    obtain ⟨hpending, hattempt, hopened, hactive⟩ := hwork
    rw [← hrefused] at hpending hattempt
    obtain ⟨hwaiting, hlast⟩ : m.node.pendingSyncTpdo = waiting ∧ (waiting ≠ [] →
        last.nowUs.isSome ∧ m.node.syncTpdoLastAttemptUs = last.nowUs) := by
      rcases hheld with hheld | ⟨hnil, -⟩
      · exact hheld
      · exact absurd hnil hne
    rw [hwaiting] at hne hoffered
    obtain ⟨hsome, hlast⟩ := hlast hne
    have hagain : Rounds SyncStamp.instant (SyncStamp.InWindow pulseUs) sampled
        (rounds ++ [m.syncRound (.finish nowUs)]) (m.syncRound (.finish nowUs)).refused
        (m.syncRound (.finish nowUs)).stamp := by
      apply hrounds.again
      · intro hnil
        rw [Round.offered, hnil] at hoffered
        exact hne hoffered.symm
      · exact hoffered
      · obtain ⟨lastUs, hlastUs⟩ := Option.isSome_iff_exists.mp hsome
        intro hinstant
        simp only [hround', SyncStamp.instant, hlastUs, Option.getD_some, UInt64.toNat_inj]
          at hinstant
        rw [hlast, hlastUs, hinstant] at hlater
        exact hlater rfl
      · rw [hround']
        exact hwindow.mp hallows
    refine ⟨hop', ?_, _, _, hagain, .inl ⟨hpending, ?_⟩⟩
    · rw [hopened, hactive]
      exact h.opened
    · intro hleft
      rw [hattempt, if_neg (by simpa using hleft), hround']
      exact ⟨rfl, rfl⟩

theorem InBatch.step (h : InBatch pulseUs sampled rounds m) (hb : m.betweenPulses a = true)
    (ha : m.act a = some m') : InBatch pulseUs sampled (rounds ++ [m.syncRound a]) m' := by
  rw [Machine.betweenPulses, ha, Option.any_some, Bool.and_eq_true, Bool.not_eq_true',
    beq_iff_eq] at hb
  obtain ⟨hp, hop'⟩ := hb
  cases act_pdo ha with
  | untouched _ _ _ _ hu => exact h.idle ha hop' hu.syncKept
  | discarded _ _ _ hd => exact absurd hop' hd.state
  | latch hu => exact h.idle ha hop' ((latchSyncEvents_syncKept m).trans hu.syncKept)
  | receive hs => exact h.idle ha hop' (receiveRpdo_syncKept m _ _ _ _)
  | pulse hpulse hop _ _ => simp [Machine.isSyncPulse, hpulse, hop] at hp
  | finish => exact h.finish hop'
  | notified hn => exact h.idle ha hop' hn.syncKept

end Batch

/-! ## Outside a batch -/

section Outside

variable {m m' : Machine OD evt dirty} {a : Action OD}

/-- Without refused frames a transmit stage offers no synchronous PDO. -/
theorem finishStages_nil (h : m.node.pendingSyncTpdo = []) (nowUs : UInt64) :
    (m.finishStages nowUs).node.pendingSyncTpdo = [] ∧
      (m.syncRound (.finish nowUs)).offers = [] := by
  have ha : m.act (.finish nowUs) = some (m.finishStages nowUs) := rfl
  have hnil := retryPendingSyncTpdo_nil h nowUs
  by_cases hop : m.state = .operational
  · have hkept : SyncKept (m.retryPendingSyncTpdo nowUs) (m.finishStages nowUs) :=
      finishStages_syncKept ((retryPendingSyncTpdo_state m nowUs).trans hop)
    rw [hnil] at hkept
    exact ⟨hkept.refused.trans h, syncRound_idle ha hkept⟩
  · have hleft : m.checkDeadlines nowUs = { m with node := m.node.leaveOperational } := if_neg hop
    have hkept : SyncKept (m.checkDeadlines nowUs) (m.finishStages nowUs) := by
      unfold Machine.finishStages
      rw [hnil]
      exact stages_syncKept (m.checkDeadlines nowUs) nowUs
    rw [hleft] at hkept
    obtain ⟨hwork, obs, htrace, hobs⟩ := hkept
    simp only [Node.syncWork, Prod.mk.injEq] at hwork
    refine ⟨hwork.1, ?_⟩
    rw [Machine.syncRound, observed_eq ha htrace, hobs]

/-- Without refused frames nothing is offered before the next pulse. -/
theorem unpulsed_nil (h : m.node.pendingSyncTpdo = []) (hp : m.isSyncPulse a = false)
    (ha : m.act a = some m') :
    m'.node.pendingSyncTpdo = [] ∧ (m.syncRound a).offers = [] := by
  have hkept (hk : SyncKept m m') :
      m'.node.pendingSyncTpdo = [] ∧ (m.syncRound a).offers = [] := by
    exact ⟨hk.refused.trans h, syncRound_idle ha hk⟩
  cases act_pdo ha with
  | untouched _ _ _ _ hu => exact hkept hu.syncKept
  | discarded _ _ _ hd =>
    obtain ⟨obs, htrace, hobs⟩ := hd.trace
    refine ⟨?_, ?_⟩
    · rcases hd.runtime with heq | heq
      · exact congrArg PdoRuntime.refused heq
      · exact congrArg PdoRuntime.refused heq
    · rw [Machine.syncRound, observed_eq ha htrace]
      exact List.filterMap_eq_nil_iff.mpr fun o ho => syncOffer_of_not_pdo (hobs o ho)
  | latch hu => exact hkept ((latchSyncEvents_syncKept m).trans hu.syncKept)
  | receive hs => exact hkept (receiveRpdo_syncKept m _ _ _ _)
  | pulse hpulse hop _ _ => simp [Machine.isSyncPulse, hpulse, hop] at hp
  | finish => exact finishStages_nil h _
  | notified hn => exact hkept hn.syncKept

/-- An action that ends outside Operational offers no synchronous PDO. -/
theorem leaving_idle (hrefused : m.state ≠ .operational → m.node.pendingSyncTpdo = [])
    (ha : m.act a = some m') (hop' : m'.state ≠ .operational) : (m.syncRound a).offers = [] := by
  by_cases hop : m.state = .operational
  · cases act_pdo ha with
    | untouched _ _ _ _ hu => exact syncRound_idle ha hu.syncKept
    | discarded _ _ _ hd =>
      obtain ⟨obs, htrace, hobs⟩ := hd.trace
      rw [Machine.syncRound, observed_eq ha htrace]
      exact List.filterMap_eq_nil_iff.mpr fun o ho => syncOffer_of_not_pdo (hobs o ho)
    | latch hu => exact syncRound_idle ha ((latchSyncEvents_syncKept m).trans hu.syncKept)
    | receive hs => exact syncRound_idle ha (receiveRpdo_syncKept m _ _ _ _)
    | pulse hpulse _ _ _ =>
      obtain ⟨_, _, _, _, hbatch⟩ := pulse_inBatch (by simp [Machine.isSyncPulse, hpulse, hop]) ha
      exact absurd hbatch.operational hop'
    | finish => exact absurd ((finishStages_state m _).trans hop) hop'
    | notified hn => exact syncRound_idle ha hn.syncKept
  · exact (unpulsed_nil (hrefused hop) (by simp [Machine.isSyncPulse, hop]) ha).2

end Outside

/-! ## Runs -/

/-- What becomes of the batch sampled on the pulse at `pulseUs`: frames are offered in
the rounds of a retried batch, and the node holds what is waiting until the window has
elapsed. -/
structure Retried (pulseUs : UInt64) (sampled : List CanFrame)
    (rounds : List (Round CanFrame SyncStamp)) (m : Machine OD evt dirty) : Prop where
  held : ∃ waiting last, Rounds SyncStamp.instant (SyncStamp.InWindow pulseUs) sampled rounds
      waiting last ∧ (allTaken rounds ++ waiting).Perm sampled ∧ waiting.Sublist sampled ∧
    (m.node.pendingSyncTpdo = waiting ∨
      (m.node.pendingSyncTpdo = [] ∧ ∃ r ∈ rounds, ¬ r.stamp.InWindow pulseUs))
  once : ∀ frame, (allTaken rounds).count frame ≤ sampled.count frame
  contents : ∀ r ∈ rounds, r.offered.Sublist sampled
  window : ∀ r ∈ rounds.tail, r.offers ≠ [] → r.stamp.InWindow pulseUs
  instants : ((active rounds).Pairwise fun r r' => r.stamp.instant ≤ r'.stamp.instant) →
    (active rounds).Pairwise fun r r' => r.stamp.instant < r'.stamp.instant

section Runs

variable {m m' : Machine OD evt dirty} {a : Action OD} {pulseUs : UInt64}
  {sampled : List CanFrame} {rounds : List (Round CanFrame SyncStamp)}

omit [ObjectDictionary OD] in
theorem InBatch.retried (h : InBatch pulseUs sampled rounds m) :
    Retried pulseUs sampled rounds m := by
  obtain ⟨waiting, last, hrounds, hheld⟩ := h.held
  exact {
    held := ⟨waiting, last, hrounds, hrounds.perm, hrounds.waiting_sublist, hheld.imp And.left id⟩
    once := hrounds.taken_count
    contents := hrounds.offered_sublist
    window := hrounds.offers_allowed
    instants := fun hle => (hrounds.instants hle).1 }

theorem unpulsed_run {l : List (Action OD)} (hnil : m.node.pendingSyncTpdo = [])
    (hl : Runs.along Machine.act (fun m a => !m.isSyncPulse a) m l = true)
    (h : m.acts l = some m') :
    (∀ r ∈ m.syncRounds l, r.offers = []) ∧ m'.node.pendingSyncTpdo = [] := by
  induction l generalizing m with
  | nil =>
    cases h
    exact ⟨nofun, hnil⟩
  | cons a l ih =>
    obtain ⟨m₁, ha, hrest⟩ := Runs.run_cons.mp h
    rw [Runs.along, ha, Bool.and_eq_true, Bool.not_eq_true'] at hl
    obtain ⟨hnext, hidle⟩ := unpulsed_nil hnil hl.1 ha
    obtain ⟨hall, hlast⟩ := ih hnext hl.2 hrest
    refine ⟨?_, hlast⟩
    intro r hr
    rw [Machine.syncRounds, Runs.log, ha] at hr
    rcases List.mem_cons.mp hr with rfl | hr
    · exact hidle
    · exact hall r hr

/-- Refused synchronous PDOs are retried correctly. In every run from a new node, the
frames sampled on a pulse are one retried batch as long as the node stays Operational and
no other pulse takes place. An action that ends outside Operational offers nothing, and
neither do those after it before the next pulse, which begins a batch of its own. -/
theorem sync_tpdos_retried {config : NodeConfig} {od : OD} {n : Node OD evt dirty}
    (hn : Node.new config od = some n) {m₀ m₁ : Machine OD evt dirty}
    {before after : List (Action OD)} (h₀ : (Machine.start n).acts before = some m₀)
    (ha : m₀.act a = some m₁) (h : m₁.acts after = some m) :
    (m₀.isSyncPulse a = true → Runs.along Machine.act Machine.betweenPulses m₁ after = true →
      ∃ pulseUs sampled, a.nowUs = some pulseUs ∧
        (m₀.observed a).filterMap Obs.sampled = [sampled] ∧
        Retried pulseUs sampled (m₀.syncRound a :: m₁.syncRounds after) m) ∧
    (m₁.state ≠ .operational →
      Runs.along Machine.act (fun m a => !m.isSyncPulse a) m₁ after = true →
      (∀ r ∈ m₀.syncRound a :: m₁.syncRounds after, r.offers = []) ∧
        m.node.pendingSyncTpdo = []) := by
  refine ⟨?_, ?_⟩
  · intro hp hafter
    obtain ⟨pulseUs, sampled, hnow, hsampled, hbatch⟩ := pulse_inBatch hp ha
    have hrun := Runs.run_inv (fun rounds m a m' hinv hb ha => InBatch.step hinv hb ha)
      hbatch hafter h
    exact ⟨pulseUs, sampled, hnow, hsampled, hrun.retried⟩
  · intro hop hafter
    have hreached : (Machine.start n).acts (before ++ [a]) = some m₁ :=
      Runs.run_append_eq_some.mpr ⟨m₀, h₀, Runs.run_cons.mpr ⟨m₁, ha, rfl⟩⟩
    obtain ⟨hidle, hnil⟩ := unpulsed_run (idle_outside hn hreached hop).refused hafter h
    refine ⟨?_, hnil⟩
    intro r hr
    rcases List.mem_cons.mp hr with rfl | hr
    · exact leaving_idle (fun hop => (idle_outside hn h₀ hop).refused) ha hop
    · exact hidle r hr

end Runs
/-! ## A run of the small device -/

/-- The sample drive with its status word sent on every SYNC. -/
def syncStatusConfig : NodeConfig :=
  { NodeConfig.fromOd sampleOd sampleNode with
    tpdo := [⟨1, 0x185, 1, 0, 0, [⟨0x6041, 0, 16⟩], true⟩] }

/-- The transmit queue is full when the pulse comes, and free one call later. -/
def refusedPulseActions : List (Action GeneratedOd) := startActions ++ [.boot 10 [.wouldBlock]]

def retryActions : List (Action GeneratedOd) := [.boot 20 [], .finish 20]

theorem sync_tpdos_retried_once : ∃ m₀ m₁ m : Machine GeneratedOd 4 4,
    m₀.act (syncAction 10) = some m₁ ∧ m₁.acts retryActions = some m ∧
      m₁.node.pendingSyncTpdo.length = 1 ∧ m.node.pendingSyncTpdo = [] ∧
      ∃ pulseUs sampled, Retried pulseUs sampled
        (m₀.syncRound (syncAction 10) :: m₁.syncRounds retryActions) m := by
  have hany : ((Node.new syncStatusConfig sampleOd : Option (Node GeneratedOd 4 4)).bind fun n =>
      ((Machine.start n).acts refusedPulseActions).bind fun m₀ =>
      (m₀.act (syncAction 10)).bind fun m₁ => (m₁.acts retryActions).map fun m =>
        (m₀, m₁, m)).any (fun (m₀, m₁, m) => m₀.isSyncPulse (syncAction 10) &&
          Runs.along Machine.act Machine.betweenPulses m₁ retryActions &&
          m₁.node.pendingSyncTpdo.length == 1 && m.node.pendingSyncTpdo == []) = true := by
    decide
  obtain ⟨⟨m₀, m₁, m⟩, hrun, hp⟩ := (Option.any_eq_true _ _).mp hany
  obtain ⟨n, hn, hrun⟩ := Option.bind_eq_some_iff.mp hrun
  obtain ⟨_, h₀, hrun⟩ := Option.bind_eq_some_iff.mp hrun
  obtain ⟨_, h₁, hrun⟩ := Option.bind_eq_some_iff.mp hrun
  obtain ⟨_, h, heq⟩ := Option.map_eq_some_iff.mp hrun
  cases heq
  simp only [Bool.and_eq_true, beq_iff_eq] at hp
  obtain ⟨⟨⟨hpulse, halong⟩, hlen⟩, hnil⟩ := hp
  obtain ⟨pulseUs, sampled, -, -, hretried⟩ := (sync_tpdos_retried hn h₀ h₁ h).1 hpulse halong
  exact ⟨m₀, m₁, m, h₁, h, hlen, hnil, pulseUs, sampled, hretried⟩

end Canopen
