import Canopen.Node.Coherence
import Canopen.Pdo.Codec

/-!
# Reception of receive PDOs

A frame that is shorter than its mapping is only counted. A longer one is as good as its
leading mapped bytes, at once for an event-driven PDO, on the SYNC pulse for a
synchronous one.
-/

namespace Canopen

open Pdo Sdo

variable {OD : Type} [ObjectDictionary OD] {evt dirty cap : ℕ}

/-- A frame cut down to its first bytes. -/
def CanFrame.leading (frame : CanFrame) (len : ℕ) : CanFrame where
  id := frame.id
  data := frame.data.take len
  id_le := frame.id_le
  length_le := (List.length_take_le' len frame.data).trans frame.length_le

namespace Pdo

def RpdoSlot.leading (slot : RpdoSlot) (frame : CanFrame) : CanFrame :=
  frame.leading ((mappedPayloadLen slot.config).getD 0)

theorem copyPdoBits_take {src : List UInt8} {offset bits len : ℕ} (h : offset + bits ≤ 8 * len)
    (dst : List UInt8) (dstOffset : ℕ) :
    copyPdoBits (src.take len) offset dst dstOffset bits =
      copyPdoBits src offset dst dstOffset bits := by
  unfold copyPdoBits
  split_ifs with haligned
  · have hbytes : bits / 8 ≤ len - offset / 8 := by omega
    dsimp only
    rw [List.drop_take, List.take_take, Nat.min_eq_left hbytes]
  · apply List.foldl_ext
    intro dst bit hbit
    have hlt := List.mem_range.mp hbit
    rw [getBit_eq, getBit_eq, ByteBits.bitAt_take, decide_eq_true (by omega), Bool.true_and]

theorem rpdoObjectData_take (od : OD) {m : PdoMapping} {data : List UInt8} {offset len : ℕ}
    (h : offset + m.bitLength.toNat ≤ 8 * len) :
    rpdoObjectData od m (data.take len) offset = rpdoObjectData od m data offset := by
  unfold rpdoObjectData
  dsimp only
  rw [copyPdoBits_take h]

/-- Bytes beyond the mapping are not looked at. -/
theorem applyMapped_take {data : List UInt8} {len : ℕ} (hlen : len ≤ data.length)
    {mappings : List PdoMapping} {offset : ℕ} (s : RpdoState OD cap)
    (h : offset + (mappings.map (·.bitLength.toNat)).sum ≤ 8 * len) :
    applyMapped (data.take len) mappings offset s = applyMapped data mappings offset s := by
  induction mappings generalizing offset s with
  | nil => rfl
  | cons m mappings ih =>
    rw [List.map_cons, List.sum_cons] at h
    have hshort : (data.take len).length * 8 < offset + m.bitLength.toNat ↔
        data.length * 8 < offset + m.bitLength.toNat := by
      rw [List.length_take_of_le hlen]
      omega
    have hnext : offset + m.bitLength.toNat + (mappings.map (·.bitLength.toNat)).sum ≤ 8 * len := by
      omega
    simp only [applyMapped, hshort, rpdoObjectData_take s.od (show offset + m.bitLength.toNat ≤
      8 * len by omega), ih _ hnext]

theorem longEnough_iff {slot : RpdoSlot} {frame : CanFrame} : slot.longEnough frame = true ↔
    ∃ len, mappedPayloadLen slot.config = some len ∧ len ≤ frame.data.length := by
  simp [RpdoSlot.longEnough, Option.any_eq_true]

/-- A long frame is applied like its leading mapped bytes. -/
theorem applyMapped_leading {slot : RpdoSlot} {frame : CanFrame}
    (h : slot.longEnough frame = true) (s : RpdoState OD cap) :
    applyMapped (slot.leading frame).data slot.config.mappings 0 s =
      applyMapped frame.data slot.config.mappings 0 s := by
  obtain ⟨len, hmapped, hlen⟩ := longEnough_iff.mp h
  have hbits : 0 + (slot.config.mappings.map (·.bitLength.toNat)).sum ≤ 8 * len := by
    unfold mappedPayloadLen at hmapped
    dsimp only at hmapped
    split_ifs at hmapped
    cases hmapped
    rw [Nat.zero_add]
    exact bytesForBits_le_iff.mp (le_refl _)
  rw [RpdoSlot.leading, hmapped]
  exact applyMapped_take hlen s hbits

theorem longEnough_leading {slot : RpdoSlot} {frame : CanFrame}
    (h : slot.longEnough frame = true) : slot.longEnough (slot.leading frame) = true := by
  obtain ⟨len, hmapped, hlen⟩ := longEnough_iff.mp h
  refine longEnough_iff.mpr ⟨len, hmapped, ?_⟩
  rw [RpdoSlot.leading, hmapped]
  exact (List.length_take_of_le hlen).ge

end Pdo

/-- Receive PDO `i` holds the given frame for the next SYNC. -/
def Node.hold (n : Node OD evt dirty) (i : ℕ) (frame : CanFrame) : Node OD evt dirty :=
  match n.rpdo.slots[i]? with
  | some slot => { n with rpdo := n.rpdo.setSlot i { slot with pending := some frame } }
  | none => n

section Receive

variable {m : Machine OD evt dirty} {i : ℕ} {slot : RpdoSlot} {frame : CanFrame} {nowUs : UInt64}

theorem receiveRpdo_short (h : slot.longEnough frame = false) :
    m.receiveRpdo i slot frame nowUs = { m with node := { m.node with rpdo := { m.node.rpdo with
      lengthErrors := Counter.saturatingAdd m.node.rpdo.lengthErrors 1 } } } := by
  unfold Machine.receiveRpdo
  dsimp only
  rw [h, if_pos (by rfl), Machine.setRpdo, Machine.log, Bus.log, List.append_nil]

theorem receiveRpdo_leading (h : slot.longEnough frame = true)
    (htype : rawIsSynchronous slot.config.transmissionType = false) :
    (m.receiveRpdo i slot (slot.leading frame) nowUs).node =
      (m.receiveRpdo i slot frame nowUs).node := by
  unfold Machine.receiveRpdo
  dsimp only
  rw [h, longEnough_leading h, htype, applyMapped_leading h]
  rfl

omit [ObjectDictionary OD] in
theorem hold_eq {n : Node OD evt dirty} (hi : n.rpdo.slots[i]? = some slot) (frame : CanFrame) :
    n.hold i frame =
      { n with rpdo := n.rpdo.setSlot i { slot with pending := some frame } } := by
  rw [Node.hold, hi]

theorem receiveRpdo_hold (h : slot.longEnough frame = true)
    (htype : rawIsSynchronous slot.config.transmissionType = true)
    (hi : m.node.rpdo.slots[i]? = some slot) :
    (m.receiveRpdo i slot (slot.leading frame) nowUs).node =
      (m.receiveRpdo i slot frame nowUs).node.hold i (slot.leading frame) := by
  have hlt := (List.getElem?_eq_some_iff.mp hi).1
  have hreceived (frame : CanFrame) (h : slot.longEnough frame = true) :
      m.receiveRpdo i slot frame nowUs = m.setRpdo (m.node.rpdo.setSlot i
        { slot.stamped nowUs with pending := some frame }) [.rpdoReceived i frame] := by
    unfold Machine.receiveRpdo
    dsimp only
    rw [h, htype, if_neg (by simp), if_pos rfl]
  have hget : (m.node.rpdo.setSlot i { slot.stamped nowUs with pending := some frame }).slots[i]? =
      some { slot.stamped nowUs with pending := some frame } :=
    List.getElem?_set_self hlt
  rw [hreceived frame h, hreceived _ (longEnough_leading h)]
  have hhold := hold_eq (n := (m.setRpdo (m.node.rpdo.setSlot i
    { slot.stamped nowUs with pending := some frame }) [.rpdoReceived i frame]).node) hget
    (slot.leading frame)
  rw [hhold]
  simp only [Machine.setRpdo, Machine.log, RpdoEngine.setSlot, List.set_set]

/-- The pulse only sees the leading mapped bytes of a held frame. -/
theorem onSync_leading {slots : List RpdoSlot} (hi : slots[i]? = some slot)
    (hpending : slot.pending = some frame) (h : slot.longEnough frame = true)
    (s : RpdoState OD cap) :
    RpdoEngine.onSync (slots.set i { slot with pending := some (slot.leading frame) }) s =
      RpdoEngine.onSync slots s := by
  induction slots generalizing i s with
  | nil => cases hi
  | cons first slots ih =>
    cases i with
    | zero =>
      cases hi
      rw [List.set_cons_zero, RpdoEngine.onSync, RpdoEngine.onSync, hpending]
      dsimp only
      rw [applyMapped_leading h]
    | succ i =>
      rw [List.set_cons_succ, RpdoEngine.onSync, RpdoEngine.onSync]
      dsimp only
      rw [ih hi]

theorem applyPulse_leading (hi : m.node.rpdo.slots[i]? = some slot)
    (hpending : slot.pending = some frame) (h : slot.longEnough frame = true) (b : Bus) :
    (Machine.applyPulse ⟨m.node.hold i (slot.leading frame), b⟩).node = m.applyPulse.node := by
  rw [hold_eq hi]
  unfold Machine.applyPulse Machine.commitRpdo
  dsimp only [RpdoEngine.setSlot, Machine.rpdoState]
  rw [onSync_leading hi hpending h]

end Receive
end Canopen
