import Canopen.Lib.FixedBuffer
import Canopen.Sdo.Protocol

/-!
# Object dictionary interface

The data types of `datatypes.rs`, the errors and events of `od.rs`, and the
`ObjectDictionary` trait as a class. A read fills the caller's buffer in place
and reports how many bytes it wrote, which is never more than the buffer holds.
-/

namespace Canopen

open Sdo

/-- CANopen data types (CiA 301). -/
inductive DataType
  | boolean
  | i8
  | i16
  | i32
  | u8
  | u16
  | u32
  | real32
  | visibleString
  | octetString
  | domain
  | i24
  | u24
  | real64
  | i64
  | u64
  deriving DecidableEq, Repr

/-- Size in bytes, `none` for variable-length types. -/
def DataType.size : DataType → Option ℕ
  | .boolean | .u8 | .i8 => some 1
  | .u16 | .i16 => some 2
  | .i24 | .u24 => some 3
  | .u32 | .i32 | .real32 => some 4
  | .u64 | .i64 | .real64 => some 8
  | .visibleString | .octetString | .domain => none

inductive AccessType
  | ro
  | wo
  | rw
  | const
  deriving DecidableEq, Repr

/-- Static metadata of an entry. Its name and maximum size are read by no
modelled function. -/
structure OdEntryMeta where
  index : UInt16
  subindex : UInt8
  dataType : DataType
  access : AccessType
  pdoMappable : Bool
  deriving DecidableEq, Repr

inductive OdError
  | notFound
  | readOnly
  | writeOnly
  | dataTypeMismatch
  | valueTooLong
  | valueRange
  | hardwareError
  | abort (code : SdoAbort)
  deriving DecidableEq, Repr

inductive OdEventSource
  | sdo
  | rpdo
  | rpdoDeadline
  deriving DecidableEq, Repr

/-- Emitted when the protocol stack modifies an entry. -/
structure OdEvent where
  index : UInt16
  subindex : UInt8
  source : OdEventSource
  deriving DecidableEq, Repr

class ObjectDictionary (OD : Type) where
  lookup : OD → UInt16 → UInt8 → Option OdEntryMeta
  /-- Read into the buffer: the number of bytes written, and the buffer afterwards. -/
  read : OD → UInt16 → UInt8 → {n : ℕ} → FixedBuffer UInt8 n →
    Except OdError {k : ℕ // k ≤ n} × FixedBuffer UInt8 n
  write : OD → UInt16 → UInt8 → List UInt8 → Except OdError Unit × OD
  subCount : OD → UInt16 → Option UInt8
  validateWrite : OD → UInt16 → UInt8 → List UInt8 → Except OdError Unit := fun _ _ _ _ => .ok ()
  storeSdoServerCobIds : OD → NodeId → OD := fun od _ => od
  storeErrorRegister : OD → UInt8 → OD := fun od _ => od

/-- One call of the dictionary's `write`. -/
structure OdWrite where
  index : UInt16
  subindex : UInt8
  data : List UInt8
  accepted : Bool
  deriving DecidableEq, Repr

/-- The little-endian word in the first four bytes of a buffer. -/
def word32 (data : List UInt8) : UInt32 :=
  LittleEndian.ofLe32 (data.getD 0 0) (data.getD 1 0) (data.getD 2 0) (data.getD 3 0)

/-- The little-endian word in the first two bytes of a buffer. -/
def word16 (data : List UInt8) : UInt16 :=
  LittleEndian.ofLe16 (data.getD 0 0) (data.getD 1 0)

@[simp] theorem word32_leBytes32 (v : UInt32) : word32 (LittleEndian.leBytes32 v) = v := by
  simp [word32, LittleEndian.leBytes32]

@[simp] theorem word16_leBytes16 (v : UInt16) : word16 (LittleEndian.leBytes16 v) = v := by
  simp [word16, LittleEndian.leBytes16]

end Canopen
