import Canopen.Node.NmtGating
import Canopen.Node.PdoRuntime

/-!
# Idle PDO services

Outside Operational no synchronous PDO waits for another attempt and no deadline is
monitored: both are given up when Operational is left, and neither begins before it is
entered again.
-/

namespace Canopen

open Pdo Sdo

variable {OD : Type} [ObjectDictionary OD] {evt dirty : ℕ}

/-- No refused frames are kept, and no deadline is armed or expired. -/
structure PdoRuntime.Idle (r : PdoRuntime) : Prop where
  refused : r.refused = []
  unarmed : ∀ slot ∈ r.rpdo, slot.armed = false ∧ slot.expired = false

section Idle

variable {m m' : Machine OD evt dirty}

theorem idle_discard (r : PdoRuntime) : r.discard.Idle where
  refused := rfl
  unarmed := by
    intro slot hslot
    obtain ⟨slot', -, rfl⟩ := List.mem_map.mp hslot
    exact ⟨rfl, rfl⟩

theorem idle_restart (r : PdoRuntime) : r.restart.Idle :=
  ⟨rfl, (idle_discard r).unarmed⟩

omit [ObjectDictionary OD] in
theorem Discarded.idle (h : Discarded m m') : m'.node.pdoRuntime.Idle := by
  rcases h.runtime with heq | heq
  · rw [heq]
    exact idle_discard _
  · rw [heq]
    exact idle_restart _

omit [ObjectDictionary OD] in
theorem idle_congr (h : m.node.pdoRuntime.Idle)
    (hrefused : m'.node.pendingSyncTpdo = m.node.pendingSyncTpdo)
    (hrpdo : m'.node.rpdo.slots = m.node.rpdo.slots) : m'.node.pdoRuntime.Idle where
  refused := hrefused.trans h.refused
  unarmed := by
    unfold Node.pdoRuntime
    rw [hrpdo]
    exact h.unarmed

theorem idle_step {allowed : (OD → OD) → Prop} (m m' : Machine OD evt dirty)
    (h : GatingInv m ∧ (m.state ≠ .operational → m.node.pdoRuntime.Idle))
    (hs : Step allowed m m') :
    GatingInv m' ∧ (m'.state ≠ .operational → m'.node.pdoRuntime.Idle) := by
  refine ⟨gatingInv_step m m' h.1 hs, ?_⟩
  intro hop
  cases hs with
  | quiet hq =>
    rw [quiet_state hq] at hop
    exact idle_congr (h.2 hop) hq.pendingSyncTpdo (congrArg RpdoEngine.slots hq.rpdo)
  | boot nowUs hb =>
    have hinit : m.state = .initializing := by
      by_contra hne
      rw [h.1.booted.mpr hne] at hb
      cases hb
    rw [(boot_untouched m nowUs).runtime]
    apply h.2
    rw [hinit]
    decide
  | channel i hch hstep => exact h.2 hop
  | request i request nowUs hch serves free hr =>
    obtain ⟨hread, -⟩ := resync_reread hr
    rw [request_runtime hr]
    apply h.2
    intro heq
    apply hop
    rw [Machine.state, hread.nmt]
    exact heq
  | stateChanged s hnew hne hold =>
    rw [stateChanged_state] at hop
    exact (stateChanged_discarded m hop).idle
  | reset resetType hr => exact (requestReset_discarded hr).idle
  | receiveRpdo i frame nowUs operational hslot =>
    exact absurd ((receiveRpdo_state m _ _ frame nowUs).trans operational) hop
  | pulse nowUs operational => exact absurd operational hop
  | retry nowUs =>
    rw [retryPendingSyncTpdo_state] at hop
    rcases retryPendingSyncTpdo_cases m nowUs with heq | heq | ⟨operational, -⟩
    · rw [heq]
      exact h.2 hop
    · rw [heq]
      exact ⟨rfl, (h.2 hop).unarmed⟩
    · exact absurd operational hop
  | deadlines nowUs =>
    obtain ⟨operational, queue, count, heq⟩ | ⟨-, heq⟩ := checkDeadlines_cases m nowUs
    · rw [heq] at hop
      exact absurd operational hop
    · rw [heq]
      change m.node.leaveOperational.pdoRuntime.Idle
      rw [leaveOperational_runtime]
      exact idle_discard _
  | pollTpdo nowUs =>
    rw [pollTpdo_state] at hop
    have hsame : m.pollTpdo nowUs = m := if_neg hop
    rw [hsame]
    exact h.2 hop
  | latchSyncEvents => exact idle_congr (h.2 hop) rfl rfl
  | clearDirty => exact idle_congr (h.2 hop) rfl rfl
  | notifyChanged index subindex => exact idle_congr (h.2 hop) rfl rfl
  | odMut f _ => exact idle_congr (h.2 hop) rfl rfl
  | storeErrorRegister emcy _ => exact h.2 hop

theorem idle_new {config : NodeConfig} {od : OD} {n : Node OD evt dirty}
    (hn : Node.new config od = some n) : n.pdoRuntime.Idle := by
  rw [new_runtime hn]
  refine ⟨rfl, ?_⟩
  intro slot hslot
  obtain ⟨slot', hslot', rfl⟩ := List.mem_map.mp hslot
  obtain ⟨pdo, -, rfl⟩ := List.mem_map.mp hslot'
  exact ⟨rfl, rfl⟩

theorem idle_outside {config : NodeConfig} {od : OD} {n : Node OD evt dirty}
    (hn : Node.new config od = some n) {l : List (Action OD)}
    (hl : (Machine.start n).acts l = some m) (hop : m.state ≠ .operational) :
    m.node.pdoRuntime.Idle :=
  (acts_inv idle_step hl ⟨gatingInv_start hn, fun _ => idle_new hn⟩).2 hop

end Idle
end Canopen
