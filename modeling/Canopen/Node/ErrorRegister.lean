import Canopen.Derive.Store
import Canopen.Emcy.Announcements
import Canopen.Node.Actions
import Canopen.Node.Construction

/-!
# The error register in the dictionary

The node (`node.rs`) mirrors the register of its emergency producer into 0x1001. Only
the three calls on the producer change the register, and a read-only object is changed
by the mirror alone.
-/

namespace Canopen

open Pdo Sdo Derive

variable {OD : Type} {evt dirty : ℕ}

/-! ## The register during a call -/

/-- The error register of the producer is as it was. -/
def KeepsRegister (m m' : Machine OD evt dirty) : Prop :=
  m'.node.emcy.errorRegister = m.node.emcy.errorRegister

section Keeps

variable {m m' m'' : Machine OD evt dirty}

theorem KeepsRegister.trans (h : KeepsRegister m m') (h' : KeepsRegister m' m'') :
    KeepsRegister m m'' := Eq.trans h' h

theorem keepsRegister_channels (m : Machine OD evt dirty)
    (f : ℕ → SdoChannel → Bus → SdoChannel × Bus) : KeepsRegister m (m.onChannels f) := by
  unfold Machine.onChannels
  generalize List.range m.node.sdo.length = indices
  induction indices generalizing m with
  | nil => rfl
  | cons i indices ih =>
    have hone : KeepsRegister m (m.onChannel i (f i)) := by
      unfold Machine.onChannel
      split <;> rfl
    exact hone.trans (ih _)

theorem keepsRegister_boot (m : Machine OD evt dirty) (nowUs : UInt64) :
    KeepsRegister m (m.boot nowUs).1 := by
  unfold Machine.boot
  dsimp only
  split_ifs <;> rfl

theorem keepsRegister_stateChanged (m : Machine OD evt dirty) (nmt : NmtHandler) :
    KeepsRegister m (m.stateChanged nmt) := by
  unfold Machine.stateChanged
  dsimp only
  split_ifs <;> rfl

theorem keepsRegister_sendEmcys (k : ℕ) (m : Machine OD evt dirty) :
    KeepsRegister m (Machine.sendEmcys k m) := by
  induction k generalizing m with
  | zero => rfl
  | succ k ih =>
    unfold Machine.sendEmcys
    dsimp only
    split
    · split_ifs
      · exact ih _
      · rfl
    · rfl

theorem foldl_pushHeartbeatEvent_emcy (n : Node OD evt dirty) (l : List HeartbeatEvent) :
    (l.foldl Node.pushHeartbeatEvent n).emcy = n.emcy := by
  induction l generalizing n with
  | nil => rfl
  | cons e l ih => exact ih _

theorem foldl_pushEvent_emcy {α : Type} (event : α → OdEvent) (n : Node OD evt dirty) (l : List α) :
    (l.foldl (fun n a => n.pushEvent (event a)) n).emcy = n.emcy := by
  induction l generalizing n with
  | nil => rfl
  | cons e l ih => exact ih _

variable [ObjectDictionary OD]

theorem syncConfigFromOd_emcy {n n' : Node OD evt dirty} (h : n.syncConfigFromOd = some n') :
    n'.emcy = n.emcy := by
  unfold Node.syncConfigFromOd at h
  obtain ⟨p, -, rfl⟩ := Option.map_eq_some_iff.mp h
  rfl

theorem resyncAfter_emcy {n n' : Node OD evt dirty} {index : UInt16}
    (h : n.resyncAfter index = some n') : n'.emcy = n.emcy := by
  unfold Node.resyncAfter at h
  dsimp only at h
  have hpdo : (if isPdoConfigIndex index then n.syncPdoFromOd else n).emcy = n.emcy := by
    split_ifs <;> rfl
  generalize (if isPdoConfigIndex index then n.syncPdoFromOd else n) = n₁ at h hpdo
  have hheartbeat : (if index = 0x1016 ∨ index = 0x1017 then n₁.syncHeartbeatFromOd true
      else n₁).emcy = n.emcy := by
    split_ifs <;> exact hpdo
  generalize (if index = 0x1016 ∨ index = 0x1017 then n₁.syncHeartbeatFromOd true else n₁) = n₂
    at h hheartbeat
  split_ifs at h
  · exact (syncConfigFromOd_emcy h).trans hheartbeat
  · cases h
    exact hheartbeat

theorem keepsRegister_reset {resetType : ResetType} (h : m.reset resetType = some m') :
    KeepsRegister m m' := by
  unfold Machine.reset at h
  obtain ⟨n, hn, rfl⟩ := Option.map_eq_some_iff.mp h
  obtain ⟨n', hn', rfl⟩ := Option.map_eq_some_iff.mp hn
  have hemcy := syncConfigFromOd_emcy hn'
  exact congrArg EmcyProducer.errorRegister hemcy

theorem keepsRegister_request {i : ℕ} {frame : CanFrame} {nowUs : UInt64}
    (h : m.handleSdoRequest i frame nowUs = some m') : KeepsRegister m m' := by
  unfold Machine.handleSdoRequest at h
  split at h
  · cases h
    rfl
  · next ch _ =>
    dsimp only at h
    split_ifs at h
    · cases h
      rfl
    · cases h
      rfl
    · have hanswer : KeepsRegister m
          (m.answerRequest i ch (SdoFrame.ofData frame.data) nowUs).1 := rfl
      apply hanswer.trans
      unfold Machine.resync at h
      split at h
      · obtain ⟨n, hn, rfl⟩ := Option.map_eq_some_iff.mp h
        exact congrArg EmcyProducer.errorRegister (resyncAfter_emcy hn)
      · cases h
        rfl

theorem keepsRegister_nmt {frame : CanFrame} (h : m.nmtFrame frame = some m') :
    KeepsRegister m m' := by
  have hreset {nmt : NmtHandler} {resetType : ResetType}
      (h : ({ m with node := { m.node with nmt := nmt } } : Machine OD evt dirty).reset resetType =
        some m') : KeepsRegister m m' := by
    have hnmt : KeepsRegister m { m with node := { m.node with nmt := nmt } } := rfl
    exact hnmt.trans (keepsRegister_reset h)
  unfold Machine.nmtFrame Machine.nmtCommand at h
  split_ifs at h
  · split at h
    · split at h
      · cases h
        rfl
      · cases h
        exact keepsRegister_stateChanged m _
      · exact hreset h
      · exact hreset h
    · cases h
      rfl
  · cases h
    rfl

omit [ObjectDictionary OD] in
theorem keepsRegister_commit (m : Machine OD evt dirty) (slots : List RpdoSlot)
    (s : RpdoState OD evt) (obs : List Obs) : KeepsRegister m (m.commitRpdo slots s obs) := rfl

omit [ObjectDictionary OD] in
theorem keepsRegister_setRpdo (m : Machine OD evt dirty) (rpdo : RpdoEngine) (obs : List Obs) :
    KeepsRegister m (m.setRpdo rpdo obs) := rfl

theorem keepsRegister_sync (m : Machine OD evt dirty) (nowUs : UInt64) :
    KeepsRegister m (m.handleSync nowUs) := by
  have hsend (m : Machine OD evt dirty) : KeepsRegister m (m.sendPulse nowUs) := rfl
  unfold Machine.handleSync
  split_ifs
  · exact (keepsRegister_commit m _ _ _).trans (hsend _)
  · rfl

theorem keepsRegister_rpdo (m : Machine OD evt dirty) (frame : CanFrame) (nowUs : UInt64) :
    KeepsRegister m (m.processRpdoFrame frame nowUs) := by
  unfold Machine.processRpdoFrame Machine.receiveRpdo
  split_ifs
  · split
    · rfl
    · split
      · dsimp only
        split_ifs
        · exact keepsRegister_setRpdo m _ _
        · exact keepsRegister_setRpdo m _ _
        · exact keepsRegister_commit m _ _ _
      · rfl
  · rfl

theorem keepsRegister_take {frame : CanFrame} {nowUs : UInt64}
    (h : m.dispatchFrame frame nowUs = some m') : KeepsRegister m m' := by
  rw [dispatchFrame_eq] at h
  generalize m.node.route frame = route at h
  cases route with
  | sdo i => exact keepsRegister_request h
  | sync =>
    cases h
    unfold Machine.syncFrame
    dsimp only
    split_ifs
    · exact keepsRegister_sync _ nowUs
    · rfl
  | nmt => exact keepsRegister_nmt h
  | lss =>
    cases h
    unfold Machine.lssRequest
    dsimp only
    split <;> rfl
  | monitor i monitor =>
    cases h
    exact congrArg EmcyProducer.errorRegister (foldl_pushHeartbeatEvent_emcy _ _)
  | rpdo =>
    cases h
    exact keepsRegister_rpdo m frame nowUs

theorem keepsRegister_finish (m : Machine OD evt dirty) (nowUs : UInt64) :
    KeepsRegister m (m.finishStages nowUs) := by
  have hretry (m : Machine OD evt dirty) : KeepsRegister m (m.retryPendingSyncTpdo nowUs) := by
    unfold Machine.retryPendingSyncTpdo
    dsimp only
    split_ifs <;> rfl
  have hdeadlines (m : Machine OD evt dirty) : KeepsRegister m (m.checkDeadlines nowUs) := by
    unfold Machine.checkDeadlines
    dsimp only
    split_ifs
    · exact congrArg EmcyProducer.errorRegister (foldl_pushEvent_emcy _ _ _)
    · rfl
  have hheartbeat (m : Machine OD evt dirty) : KeepsRegister m (m.sendHeartbeat nowUs) := by
    unfold Machine.sendHeartbeat
    dsimp only
    split_ifs
    · split
      · split_ifs <;> rfl
      · rfl
    · rfl
  have hmonitors (m : Machine OD evt dirty) : KeepsRegister m (m.checkHeartbeats nowUs) :=
    congrArg EmcyProducer.errorRegister (foldl_pushHeartbeatEvent_emcy _ _)
  have hemcy (m : Machine OD evt dirty) : KeepsRegister m m.sendEmcy := by
    unfold Machine.sendEmcy
    split_ifs
    · exact keepsRegister_sendEmcys _ m
    · rfl
  have hpoll (m : Machine OD evt dirty) : KeepsRegister m (m.pollTpdo nowUs) := by
    unfold Machine.pollTpdo
    split_ifs <;> rfl
  unfold Machine.finishStages
  apply (hretry m).trans
  apply (hdeadlines _).trans
  apply (hheartbeat _).trans
  apply (hmonitors _).trans
  apply (hemcy _).trans
  apply (hpoll _).trans
  rfl

/-- A call on the emergency producer of the node. -/
def Call.onEmcy : Call OD → Bool
  | .setError _ _ _ | .clearError _ | .clearAllErrors => true
  | _ => false

/-- No action but a call on the producer changes its register. -/
theorem keepsRegister_act {a : Action OD} (ha : ∀ c h, a = .call c h → c.onEmcy = false)
    (h : m.act a = some m') : KeepsRegister m m' := by
  cases a with
  | boot nowUs answers =>
    cases h
    exact keepsRegister_boot _ nowUs
  | expire nowUs =>
    cases h
    have hlatch : KeepsRegister m m.latchSyncEvents := rfl
    exact hlatch.trans (keepsRegister_channels _ _)
  | frame nowUs frame => exact keepsRegister_take h
  | service nowUs =>
    cases h
    exact keepsRegister_channels _ _
  | produceSync nowUs =>
    cases h
    unfold Machine.produceSync
    dsimp only
    split_ifs
    · split
      · split_ifs
        · exact keepsRegister_sync _ nowUs
        · rfl
      · rfl
    · rfl
  | finish nowUs =>
    rw [Machine.act_finish h]
    exact keepsRegister_finish m nowUs
  | call c hc =>
    have hno := ha c hc rfl
    cases c with
    | process nowUs rx answers => cases hc
    | requestReset resetType =>
      have hnmt : KeepsRegister m { m with node := { m.node with nmt := .new } } := rfl
      exact hnmt.trans (keepsRegister_reset h)
    | notifyChanged index subindex => cases h; rfl
    | setError code bits data => cases hno
    | clearError bits => cases hno
    | clearAllErrors => cases hno
    | odMut f => cases h; rfl
    | nextEvent => cases h; rfl
    | nextHeartbeatEvent => cases h; rfl
    | takeResetEvent => cases h; rfl

theorem keepsRegister_call {c : Call OD} (hc : c.onEmcy = false) (h : m.call c = some m') :
    KeepsRegister m m' := by
  have hrun {m m' : Machine OD evt dirty} {l : List (Action OD)}
      (hl : ∀ a ∈ l, ∀ c h, a = .call c h → c.onEmcy = false) (h : m.acts l = some m') :
      KeepsRegister m m' := by
    induction l generalizing m with
    | nil =>
      cases h
      rfl
    | cons a l ih =>
      obtain ⟨m₁, h₁, h₂⟩ := Runs.run_cons.mp h
      have hfirst := keepsRegister_act (hl a List.mem_cons_self) h₁
      exact hfirst.trans (ih (fun b hb => hl b (List.mem_cons_of_mem a hb)) h₂)
  rw [call_acts] at h
  refine hrun ?_ h
  intro a ha c' hc' heq
  subst heq
  cases c with
  | process nowUs rx answers =>
    unfold Machine.actions at ha
    dsimp only at ha
    split_ifs at ha <;> simp at ha
  | _ =>
    cases List.mem_singleton.mp ha
    exact hc

/-- What holds of the dictionary through every write holds through every step. -/
theorem od_inv_step {allowed : (OD → OD) → Prop} {P : OD → Prop}
    (hwrite : ∀ od index sub data, P od → P (ObjectDictionary.write od index sub data).2)
    (happ : ∀ f, allowed f → ∀ od, P od → P (f od)) (hu : Uncommitted m) (h : P m.node.od)
    (hs : Step allowed m m') : P m'.node.od := by
  cases step_config hu hs with
  | rpdo ws hod hlog hrun =>
    have hwrote {od : OD} {ws : List OdWrite} (hod : Wrote m.node.od ws od) : P od := by
      induction hod with
      | nil => exact h
      | write _ index sub data ih => exact hwrite _ index sub data ih
    exact hwrote hod
  | application f hf hod hrun =>
    rw [hod]
    exact happ f hf _ h
  | refused index sub data e hw hod hrun =>
    rw [hod]
    exact hwrite _ index sub data h
  | committed index sub data nowUs hvalid hw hod hrun =>
    rw [hod]
    exact hwrite _ index sub data h
  | reset p hod hp hrun =>
    rw [hod]
    exact h

theorem od_inv_steps {allowed : (OD → OD) → Prop} {P : OD → Prop}
    (hwrite : ∀ od index sub data, P od → P (ObjectDictionary.write od index sub data).2)
    (happ : ∀ f, allowed f → ∀ od, P od → P (f od)) (hu : Uncommitted m) (h : P m.node.od)
    (hs : Steps allowed m m') : Uncommitted m' ∧ P m'.node.od := by
  induction hs with
  | refl => exact ⟨hu, h⟩
  | tail _ hlast ih =>
    exact ⟨uncommitted_step ih.1 hlast, od_inv_step hwrite happ ih.1 ih.2 hlast⟩

/-- A call that is not on the producer never mirrors the register. -/
theorem call_steps_silent {allowed : (OD → OD) → Prop} {c : Call OD} (hc : c.onEmcy = false)
    (hallowed : ∀ f, c = .odMut f → allowed f) (h : m.call c = some m') : Steps allowed m m' := by
  cases c with
  | process nowUs rx answers => exact (answers_steps m answers).trans (process_steps h)
  | setError code bits data => cases hc
  | clearError bits => cases hc
  | clearAllErrors => cases hc
  | odMut f =>
    cases h
    exact .single (.odMut f (hallowed f rfl))
  | requestReset resetType => exact .single (.reset resetType h)
  | notifyChanged index subindex =>
    cases h
    exact .single (.notifyChanged index subindex)
  | nextEvent =>
    cases h
    exact quiet_steps { quiet_refl m with }
  | nextHeartbeatEvent =>
    cases h
    exact quiet_steps { quiet_refl m with }
  | takeResetEvent =>
    cases h
    exact quiet_steps { quiet_refl m with }

end Keeps

/-! ## The object -/

/-- The dictionary declares 0x1001 as a read-only u8. -/
def DeclaresErrorRegister (od : GeneratedOd) : Prop :=
  ∃ c, od.fields.cell 0x1001 0 = some c ∧ c.info.dataType = .u8 ∧ c.info.access = .ro

/-- The object is declared and holds the value. -/
def HoldsErrorRegister (value : UInt8) (od : GeneratedOd) : Prop :=
  ∃ c, od.fields.cell 0x1001 0 = some c ∧ c.info.dataType = .u8 ∧ c.info.access = .ro ∧
    c.value = [value]

/-- The application keeps the declarations of the dictionary, which are part of its type. -/
def KeepsDeclarations (f : GeneratedOd → GeneratedOd) : Prop :=
  ∀ od, (f od).fields.cells.map (·.info) = od.fields.cells.map (·.info)

/-- The application also leaves the value of 0x1001 alone. -/
def KeepsErrorRegister (f : GeneratedOd → GeneratedOd) : Prop :=
  ∀ od, (f od).fields.cell 0x1001 0 = od.fields.cell 0x1001 0

/-- Reading 0x1001 gives the register of the producer. -/
def ShowsErrorRegister (m : Machine GeneratedOd evt dirty) : Prop :=
  ∀ (k : ℕ) (buf : FixedBuffer UInt8 k) (hk : 1 ≤ k),
    ObjectDictionary.read m.node.od 0x1001 0 buf =
      (.ok ⟨1, hk⟩, buf.write 0 [m.node.emcy.errorRegister])

theorem HoldsErrorRegister.read {m : Machine GeneratedOd evt dirty}
    (h : HoldsErrorRegister m.node.emcy.errorRegister m.node.od) : ShowsErrorRegister m := by
  obtain ⟨c, hcell, htype, haccess, hvalue⟩ := h
  intro k buf hk
  have hobject : m.node.od.fields.object 0x1001 0 = some (.ro, [m.node.emcy.errorRegister]) := by
    rw [OdFields.object, hcell, ← haccess, ← hvalue]
  exact (read_eq hobject (by decide) buf).trans (dif_pos hk)

/-- A read-only object survives every write. -/
theorem cell_write_ro {od : OdFields} {index : UInt16} {sub : UInt8} {c : Cell}
    (h : od.cell index sub = some c) (hro : c.info.access = .ro) (index' : UInt16) (sub' : UInt8)
    (data : List UInt8) : (od.write index' sub' data).2.cell index sub = some c := by
  rcases OdFields.write_cases od index' sub' data with
    ⟨e, hw⟩ | ⟨cells, hcells, hw⟩ | ⟨pdos, -, -, hw⟩
  · rw [hw]
    exact h
  · rw [hw]
    by_cases haddr : index' = index ∧ sub' = sub
    · -- the owner of the address would be the read-only cell
      obtain ⟨rfl, rfl⟩ := haddr
      obtain ⟨l₁, a, a', l₂, hl, -, hfree, howns, hwrite⟩ := updateFirst_ok hcells
      have hfirst : od.cell index' sub' = some a := by
        unfold OdFields.cell
        rw [hl, List.find?_append, List.find?_eq_none.mpr (by simpa using hfree), Option.none_or,
          List.find?_cons, howns]
      rw [h] at hfirst
      cases hfirst
      exact absurd hro (cell_written hwrite).writable.1
    · rw [← h]
      unfold OdFields.cell
      dsimp only
      rw [List.find?_eq_findSome?_guard, List.find?_eq_findSome?_guard]
      refine updateFirst_findSome? _ ?_ hcells
      intro b b' howns hb
      have hother : (b.info.index == index && b.info.subindex == sub) = false := by
        rw [Bool.eq_false_iff]
        intro heq
        simp only [Bool.and_eq_true, beq_iff_eq] at howns heq
        exact haddr ⟨howns.1.symm.trans heq.1, howns.2.symm.trans heq.2⟩
      simp [Option.guard, (cell_written hb).info, hother]
  · rw [hw]
    exact h

theorem holds_write {value : UInt8} (od : GeneratedOd) (index : UInt16) (sub : UInt8)
    (data : List UInt8) (h : HoldsErrorRegister value od) :
    HoldsErrorRegister value (ObjectDictionary.write od index sub data).2 := by
  obtain ⟨c, hcell, htype, haccess, hvalue⟩ := h
  exact ⟨c, cell_write_ro hcell haccess index sub data, htype, haccess, hvalue⟩

theorem declares_write (od : GeneratedOd) (index : UInt16) (sub : UInt8) (data : List UInt8)
    (h : DeclaresErrorRegister od) :
    DeclaresErrorRegister (ObjectDictionary.write od index sub data).2 := by
  obtain ⟨c, hcell, htype, haccess⟩ := h
  exact ⟨c, cell_write_ro hcell haccess index sub data, htype, haccess⟩

theorem cell_info (od : OdFields) (index : UInt16) (sub : UInt8) :
    (od.cell index sub).map (·.info) =
      (od.cells.map (·.info)).find? fun i => i.index == index && i.subindex == sub := by
  rw [List.find?_map]
  rfl

theorem declares_congr {od od' : GeneratedOd}
    (hinfo : od'.fields.cells.map (·.info) = od.fields.cells.map (·.info))
    (h : DeclaresErrorRegister od) : DeclaresErrorRegister od' := by
  obtain ⟨c, hcell, htype, haccess⟩ := h
  have hsame : (od'.fields.cell 0x1001 0).map (·.info) = some c.info := by
    rw [cell_info, hinfo, ← cell_info, hcell, Option.map_some]
  obtain ⟨c', hcell', hc'⟩ := Option.map_eq_some_iff.mp hsame
  exact ⟨c', hcell', by rw [hc', htype], by rw [hc', haccess]⟩

/-- The mirror stores the register in the declared object. -/
theorem holds_storeErrorRegister {od : GeneratedOd} (h : DeclaresErrorRegister od) (value : UInt8) :
    HoldsErrorRegister value (ObjectDictionary.storeErrorRegister od value) := by
  obtain ⟨c, hcell, htype, haccess⟩ := h
  refine ⟨{ c with value := [value] }, ?_, htype, haccess, rfl⟩
  change (od.fields.storeErrorRegister value).cell 0x1001 0 = _
  have howns : c.info.index = 0x1001 ∧ c.info.subindex = 0 := by
    have hfound := List.find?_some hcell
    simpa using hfound
  unfold OdFields.cell OdFields.storeErrorRegister at *
  dsimp only
  rw [List.find?_map]
  have hsame : ((fun c : Cell => c.info.index == 0x1001 && c.info.subindex == 0) ∘ fun c =>
      if c.info.index = 0x1001 ∧ c.info.subindex = 0 ∧ c.info.dataType = .u8 then
        { c with value := [value] } else c) =
      fun c : Cell => c.info.index == 0x1001 && c.info.subindex == 0 := by
    funext c
    dsimp only [Function.comp_apply]
    split_ifs <;> rfl
  rw [hsame, hcell, Option.map_some, if_pos ⟨howns.1, howns.2, htype⟩]

theorem declares_stores {od : GeneratedOd} (h : DeclaresErrorRegister od) (node : NodeId) :
    DeclaresErrorRegister (ObjectDictionary.storeSdoServerCobIds od node) := h

theorem HoldsErrorRegister.declares {value : UInt8} {od : GeneratedOd}
    (h : HoldsErrorRegister value od) : DeclaresErrorRegister od := by
  obtain ⟨c, hcell, htype, haccess, -⟩ := h
  exact ⟨c, hcell, htype, haccess⟩

theorem declares_writeCobs {cobs : List (UInt16 × UInt16 × Bool)} {base : UInt16} (k : ℕ)
    {od : GeneratedOd} (h : DeclaresErrorRegister od) :
    DeclaresErrorRegister (Node.writeCobs od base k cobs) := by
  induction cobs generalizing k od with
  | nil => exact h
  | cons p cobs ih => exact ih (k + 1) (declares_write od _ _ _ h)

theorem new_holds {config : NodeConfig} {od : GeneratedOd} (h : DeclaresErrorRegister od)
    {n : Node GeneratedOd evt dirty} (hn : Node.new config od = some n) :
    HoldsErrorRegister n.emcy.errorRegister n.od := by
  have hod := (new_running hn).1
  have hregister : n.emcy.errorRegister = 0 := by
    obtain ⟨n', hn', hunique⟩ := Option.bind_eq_some_iff.mp hn
    split_ifs at hunique
    cases hunique
    exact congrArg EmcyProducer.errorRegister (syncConfigFromOd_emcy hn')
  rw [hod, hregister]
  exact holds_storeErrorRegister
    (declares_stores (declares_writeCobs 0 (declares_writeCobs 0 h)) config.nodeId) 0

/-! ## Runs -/

variable {m m' : Machine GeneratedOd evt dirty}

theorem setEmcy_holds (h : DeclaresErrorRegister m.node.od) (emcy : EmcyProducer) :
    HoldsErrorRegister (m.setEmcy emcy).node.emcy.errorRegister (m.setEmcy emcy).node.od := by
  have hstored := holds_storeErrorRegister h emcy.errorRegister
  unfold Machine.setEmcy Machine.mirrorErrorRegister
  dsimp only
  split_ifs <;> exact hstored

theorem setEmcy_uncommitted (hu : Uncommitted m) (emcy : EmcyProducer) : Uncommitted (m.setEmcy emcy) := by
  have hsteps : Steps (fun _ => True) m (m.setEmcy emcy) := setEmcy_steps m emcy fun _ => trivial
  exact steps_inv (fun _ _ => uncommitted_step) hsteps hu

theorem onEmcy_setEmcy {OD : Type} [ObjectDictionary OD] {m m' : Machine OD evt dirty} {c : Call OD}
    (hc : c.onEmcy = true) (h : m.call c = some m') : ∃ emcy, m' = m.setEmcy emcy := by
  cases c with
  | setError code bits data =>
    cases h
    exact ⟨_, rfl⟩
  | clearError bits =>
    cases h
    exact ⟨_, rfl⟩
  | clearAllErrors =>
    cases h
    exact ⟨_, rfl⟩
  | _ => cases hc

theorem run_declares {calls : List (Call GeneratedOd)}
    (happ : ∀ f, .odMut f ∈ calls → KeepsDeclarations f) (hu : Uncommitted m)
    (h : DeclaresErrorRegister m.node.od) (hm : m.run calls = some m') :
    Uncommitted m' ∧ DeclaresErrorRegister m'.node.od := by
  have hsteps : Steps (fun f => ∀ od, DeclaresErrorRegister od → DeclaresErrorRegister (f od)) m m' :=
    run_steps (fun value od hod => (holds_storeErrorRegister hod value).declares)
      (fun f hf od hod => declares_congr (happ f hf od) hod) hm
  exact od_inv_steps declares_write (fun f hf => hf) hu h hsteps

/-- A call keeps the object equal to the register if the application leaves it alone. -/
theorem call_holds {c : Call GeneratedOd} (hc : ∀ f, c = .odMut f → KeepsErrorRegister f)
    (hu : Uncommitted m) (h : HoldsErrorRegister m.node.emcy.errorRegister m.node.od)
    (hm : m.call c = some m') :
    Uncommitted m' ∧ HoldsErrorRegister m'.node.emcy.errorRegister m'.node.od := by
  cases honEmcy : c.onEmcy with
  | true =>
    obtain ⟨emcy, rfl⟩ := onEmcy_setEmcy honEmcy hm
    exact ⟨setEmcy_uncommitted hu emcy, setEmcy_holds h.declares emcy⟩
  | false =>
    have hkept : m'.node.emcy.errorRegister = m.node.emcy.errorRegister :=
      keepsRegister_call honEmcy hm
    rw [hkept]
    refine od_inv_steps holds_write ?_ hu h (call_steps_silent honEmcy hc hm)
    rintro f hf od ⟨c, hcell, hrest⟩
    exact ⟨c, (hf od).trans hcell, hrest⟩

theorem run_holds {calls : List (Call GeneratedOd)}
    (happ : ∀ f, .odMut f ∈ calls → KeepsErrorRegister f) (hu : Uncommitted m)
    (h : HoldsErrorRegister m.node.emcy.errorRegister m.node.od) (hm : m.run calls = some m') :
    HoldsErrorRegister m'.node.emcy.errorRegister m'.node.od := by
  induction calls generalizing m with
  | nil =>
    cases hm
    exact h
  | cons c calls ih =>
    obtain ⟨m₁, h₁, h₂⟩ := Runs.run_cons.mp hm
    have hstep := call_holds (fun f hf => happ f (hf ▸ List.mem_cons_self)) hu h h₁
    exact ih (fun f hf => happ f (List.mem_cons_of_mem c hf)) hstep.1 hstep.2 h₂

/-- The announcements of a producer match its register and its queue, up to the
saturation of the counter of dropped ones, and a node shows the register at 0x1001. -/
theorem announcements_match_register {config : NodeConfig} {od : GeneratedOd}
    (hdecl : DeclaresErrorRegister od) {n : Node GeneratedOd evt dirty}
    (hn : Node.new config od = some n) {calls : List (Call GeneratedOd)}
    {m : Machine GeneratedOd evt dirty} (hm : (Machine.start n).run calls = some m)
    (happ : ∀ f, .odMut f ∈ calls → KeepsDeclarations f) :
    (∀ (node : NodeId) (emcyCalls : List EmcyCall),
      let p := (EmcyProducer.new node).after emcyCalls
      let queued := (EmcyProducer.new node).queued emcyCalls
      let taken := (EmcyProducer.new node).taken emcyCalls
      (p.errorRegister ≠ 0 → p.errorRegister &&& errorGeneric = errorGeneric) ∧
      (p.errorRegister = 0 ↔
        queued = [] ∨ ∃ frame, queued.getLast? = some frame ∧ frame.isErrorReset = true) ∧
      EmcyProducer.HoldsRecent queued taken p.pending.items ∧
      p.dropped.toNat = min (queued.length - taken.length - p.pending.items.length) 0xFFFFFFFF ∧
      ∀ bits,
        (p.errorRegister ≠ 0 ∧ (p.clearError bits).errorRegister = 0 →
          p.clearError bits =
            { p with errorRegister := 0 }.queue (buildEmcyFrame p.nodeId 0 0 [])) ∧
        (¬(p.errorRegister ≠ 0 ∧ (p.clearError bits).errorRegister = 0) →
          (p.clearError bits).pending = p.pending ∧ (p.clearError bits).dropped = p.dropped)) ∧
    (∀ before c after, calls = before ++ c :: after → c.onEmcy = true →
      (∀ f, .odMut f ∈ after → KeepsErrorRegister f) → ShowsErrorRegister m) ∧
    ((∀ f, .odMut f ∈ calls → KeepsErrorRegister f) → ShowsErrorRegister m) := by
  have hu := uncommitted_start hn
  have hstart := new_holds hdecl hn
  refine ⟨?_, ?_, ?_⟩
  · intro node emcyCalls
    have haccounts := EmcyProducer.accounts_after node emcyCalls
    exact ⟨haccounts.generic, haccounts.announced, haccounts.pending, haccounts.dropped.2,
      EmcyProducer.clearError_announces _⟩
  · rintro before c after rfl hc hkeeps
    obtain ⟨m₁, hbefore, hrest⟩ := Runs.run_append_eq_some.mp hm
    obtain ⟨m₂, hcall, hafter⟩ := Runs.run_cons.mp hrest
    -- the call on the producer writes the object again, whatever stood there
    obtain ⟨emcy, rfl⟩ := onEmcy_setEmcy hc hcall
    obtain ⟨hu₁, hdeclares⟩ :=
      run_declares (fun f hf => happ f (List.mem_append_left _ hf)) hu hstart.declares hbefore
    exact (run_holds hkeeps (setEmcy_uncommitted hu₁ emcy) (setEmcy_holds hdeclares emcy) hafter).read
  · intro hkeeps
    exact (run_holds hkeeps hu hstart hm).read

/-- A device that declares the error register. -/
def emcyOd : GeneratedOd :=
  ⟨OdFields.new { sampleDefinition with
    entries := ⟨0x1001, .var ⟨.u8, .ro, true, none, [0]⟩⟩ :: sampleDefinition.entries }, none⟩

theorem announcements_match_register_voltage :
    ∃ m, ((Node.new (.fromOd emcyOd sampleNode) emcyOd : Option (Node GeneratedOd 4 4)).bind fun n =>
        (Machine.start n).run [.setError 0x3210 4 []]) = some m ∧
      m.node.emcy.errorRegister = 5 ∧ ShowsErrorRegister m := by
  have hany : ((Node.new (.fromOd emcyOd sampleNode) emcyOd :
      Option (Node GeneratedOd 4 4)).bind fun n =>
        (Machine.start n).run [.setError 0x3210 4 []]).any
          (fun m => m.node.emcy.errorRegister == 5) = true := by
    decide
  obtain ⟨m, hm, hregister⟩ := (Option.any_eq_true _ _).mp hany
  refine ⟨m, hm, by simpa using hregister, ?_⟩
  obtain ⟨n, hn, hrun⟩ := Option.bind_eq_some_iff.mp hm
  have hdecl : DeclaresErrorRegister emcyOd := ⟨_, rfl, rfl, rfl⟩
  exact (announcements_match_register hdecl hn hrun (by simp)).2.2 (by simp)

end Canopen
