import Mathlib.Tactic

/-!
# Node ids, COB-IDs and CAN frames

The identifiers of the pre-defined connection set (`cobid.rs`) and the classic
11-bit CAN data frame (`transport.rs`). Both types carry their range, so a
frame with an extended identifier or more than eight bytes cannot be built.
-/

namespace Canopen

/-- 7-bit CANopen node ID (1..=127). -/
structure NodeId where
  raw : UInt8
  pos : 1 ≤ raw
  le : raw ≤ 127
  deriving DecidableEq, Repr

def NodeId.new (id : UInt8) : Option NodeId :=
  if h : 1 ≤ id ∧ id ≤ 127 then some ⟨id, h.1, h.2⟩ else none

namespace CobId

def nmt : UInt16 := 0x000

def emergency (node : NodeId) : UInt16 := 0x080 + node.raw.toUInt16

def sdoTx (node : NodeId) : UInt16 := 0x580 + node.raw.toUInt16

def sdoRx (node : NodeId) : UInt16 := 0x600 + node.raw.toUInt16

def heartbeat (node : NodeId) : UInt16 := 0x700 + node.raw.toUInt16

theorem toNat_raw (node : NodeId) : 1 ≤ node.raw.toNat ∧ node.raw.toNat ≤ 127 := by
  have hp := node.pos
  have hl := node.le
  simp only [UInt8.le_iff_toNat_le] at hp hl
  exact ⟨hp, hl⟩

theorem toNat_base_add (base : UInt16) (hb : base.toNat ≤ 0x700) (node : NodeId) :
    (base + node.raw.toUInt16).toNat = base.toNat + node.raw.toNat := by
  have h := toNat_raw node
  rw [UInt16.toNat_add, UInt8.toNat_toUInt16]
  omega

theorem base_add_le (base : UInt16) (hb : base.toNat ≤ 0x700) (node : NodeId) :
    base + node.raw.toUInt16 ≤ 0x7FF := by
  have h := toNat_raw node
  rw [UInt16.le_iff_toNat_le, toNat_base_add base hb]
  change _ ≤ 0x7FF
  omega

theorem sdoTx_le (node : NodeId) : sdoTx node ≤ 0x7FF := base_add_le 0x580 (by decide) node

theorem sdoRx_le (node : NodeId) : sdoRx node ≤ 0x7FF := base_add_le 0x600 (by decide) node

theorem heartbeat_le (node : NodeId) : heartbeat node ≤ 0x7FF :=
  base_add_le 0x700 (by decide) node

theorem emergency_le (node : NodeId) : emergency node ≤ 0x7FF :=
  base_add_le 0x080 (by decide) node

end CobId

/-- A classic CAN data frame: 11-bit identifier, up to eight data bytes. -/
structure CanFrame where
  id : UInt16
  data : List UInt8
  id_le : id ≤ 0x7FF
  length_le : data.length ≤ 8
  deriving DecidableEq, Repr

namespace CanFrame

/-- `None` if the identifier needs more than 11 bits or the data more than 8 bytes. -/
def new (id : UInt16) (data : List UInt8) : Option CanFrame :=
  if h : id ≤ 0x7FF ∧ data.length ≤ 8 then some ⟨id, data, h.1, h.2⟩ else none

/-- A frame that is written out. -/
def literal (id : UInt16) (data : List UInt8)
    (h : (new id data).isSome = true := by exact Eq.refl true) : CanFrame :=
  (new id data).get h

def rawDlc (frame : CanFrame) : ℕ := frame.data.length

theorem new_eq_some {id : UInt16} {data : List UInt8} (hi : id ≤ 0x7FF) (hd : data.length ≤ 8) :
    new id data = some ⟨id, data, hi, hd⟩ := by
  simp [new, hi, hd]

theorem id_of_new {id : UInt16} {data : List UInt8} {frame : CanFrame}
    (h : new id data = some frame) : frame.id = id ∧ frame.data = data := by
  unfold new at h
  split at h
  · cases h
    exact ⟨rfl, rfl⟩
  · cases h

end CanFrame
end Canopen
