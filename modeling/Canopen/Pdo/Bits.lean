import Mathlib.Tactic

/-!
# PDO bit fields

The bit-level helpers of `pdo/mod.rs`. A PDO payload is a sequence of bits, least
significant bit of the first byte first, and a mapped object occupies a run of
them.
-/

namespace Canopen.Pdo

/-- Bit `i` of a byte slice. -/
def getBit (bytes : List UInt8) (i : ℕ) : Bool :=
  ((bytes.getD (i / 8) 0) >>> UInt8.ofNat (i % 8)) &&& 1 != 0

/-- Set or clear bit `i` of a byte slice. -/
def putBit (bytes : List UInt8) (i : ℕ) (value : Bool) : List UInt8 :=
  let mask : UInt8 := 1 <<< UInt8.ofNat (i % 8)
  bytes.modify (i / 8) fun byte => if value then byte ||| mask else byte &&& ~~~mask

/-- Copy `bitLen` bits. Byte-aligned runs are copied as bytes. -/
def copyPdoBits (src : List UInt8) (srcBitOffset : ℕ) (dst : List UInt8) (dstBitOffset bitLen : ℕ) :
    List UInt8 :=
  if srcBitOffset % 8 = 0 ∧ dstBitOffset % 8 = 0 ∧ bitLen % 8 = 0 then
    let byteLen := bitLen / 8
    let srcStart := srcBitOffset / 8
    let dstStart := dstBitOffset / 8
    dst.take dstStart ++ (src.drop srcStart).take byteLen ++ dst.drop (dstStart + byteLen)
  else
    (List.range bitLen).foldl
      (fun dst bit => putBit dst (dstBitOffset + bit) (getBit src (srcBitOffset + bit))) dst

/-- Widen a signed value whose low `bits` bits were received. -/
def signExtendPdoBits (value : List UInt8) (bits : ℕ) : List UInt8 :=
  if bits = 0 ∨ value.length * 8 ≤ bits then value
  else if !getBit value (bits - 1) then value
  else
    (List.range (value.length * 8 - bits)).foldl (fun v k => putBit v (bits + k) true) value

def bytesForBits (bits : ℕ) : ℕ := (bits + 7) / 8

end Canopen.Pdo
