import Canopen.Lib.ByteBits
import Canopen.Pdo.Engine

/-!
# What a PDO frame carries

The engines pack and unpack a frame entry by entry, at bit offsets that need not be
aligned. Here each of them is specified by the fields of the payload: a frame carries a
list of items, and packing and unpacking are compared through it.
-/

namespace Canopen.Pdo

open ByteBits

/-! ## Bit copies -/

theorem getBit_eq (bytes : List UInt8) (i : ℕ) : getBit bytes i = bitAt bytes i := by
  have hk : i % 8 < 2 ^ 8 := (Nat.mod_lt i (by decide)).trans (by decide)
  have hbit (b : UInt8) : (b >>> UInt8.ofNat (i % 8) &&& 1 != 0) = b.toNat.testBit (i % 8) := by
    rw [Bool.eq_iff_iff, bne_iff_ne, ne_eq, ← UInt8.toNat_inj, UInt8.toNat_and,
      UInt8.toNat_shiftRight, UInt8.toNat_ofNat', Nat.mod_eq_of_lt hk, Nat.mod_mod,
      Nat.testBit, Nat.and_comm]
    simp
  exact hbit _

theorem putBit_eq (bytes : List UInt8) (i : ℕ) (v : Bool) :
    putBit bytes i v = bytes.modify (i / 8) fun b => byteWith b (i % 8) v := rfl

@[simp] theorem length_putBit (bytes : List UInt8) (i : ℕ) (v : Bool) :
    (putBit bytes i v).length = bytes.length := by
  rw [putBit_eq, List.length_modify]

theorem bitAt_putBit {bytes : List UInt8} {i : ℕ} (hi : i < 8 * bytes.length) (v : Bool) (j : ℕ) :
    bitAt (putBit bytes i v) j = if j = i then v else bitAt bytes j := by
  rw [putBit_eq, bitAt_modify_byteWith bytes hi]

/-- Setting a run of bits one after the other. -/
theorem bitAt_foldl_putBit (dst : List UInt8) (start n : ℕ) (f : ℕ → Bool)
    (h : start + n ≤ 8 * dst.length) :
    let out := (List.range n).foldl (fun d k => putBit d (start + k) (f k)) dst
    out.length = dst.length ∧
      ∀ i, bitAt out i = if start ≤ i ∧ i < start + n then f (i - start) else bitAt dst i := by
  induction n with
  | zero =>
    refine ⟨rfl, fun i => ?_⟩
    rw [if_neg (by omega)]
    rfl
  | succ n ih =>
    obtain ⟨hlen, hbits⟩ := ih (by omega)
    simp only [List.range_succ, List.foldl_append, List.foldl_cons, List.foldl_nil]
    refine ⟨by rw [length_putBit, hlen], fun i => ?_⟩
    rw [bitAt_putBit (by rw [hlen]; omega)]
    by_cases hi : i = start + n
    · subst hi
      rw [if_pos rfl, if_pos (by omega), Nat.add_sub_cancel_left]
    · rw [if_neg hi, hbits i]
      by_cases hin : start ≤ i ∧ i < start + n
      · rw [if_pos hin, if_pos (by omega)]
      · rw [if_neg hin, if_neg (by omega)]

/-- A copy moves a run of bits and leaves the others, byte-aligned or not. -/
theorem copyPdoBits_spec {src dst : List UInt8} {so dof n : ℕ} (hs : so + n ≤ 8 * src.length)
    (hd : dof + n ≤ 8 * dst.length) :
    (copyPdoBits src so dst dof n).length = dst.length ∧
      ∀ i, bitAt (copyPdoBits src so dst dof n) i =
        if dof ≤ i ∧ i < dof + n then bitAt src (so + (i - dof)) else bitAt dst i := by
  unfold copyPdoBits
  by_cases h : so % 8 = 0 ∧ dof % 8 = 0 ∧ n % 8 = 0
  · rw [if_pos h]
    obtain ⟨hso, hdo, hn⟩ := h
    have hlen : ((src.drop (so / 8)).take (n / 8)).length = n / 8 := by
      rw [List.length_take, List.length_drop]
      omega
    have htake : (dst.take (dof / 8)).length = dof / 8 := by
      rw [List.length_take]
      omega
    refine ⟨by simp only [List.length_append, hlen, htake, List.length_drop]; omega, fun i => ?_⟩
    rw [bitAt_append, bitAt_append, List.length_append, hlen, htake, bitAt_take, bitAt_take,
      bitAt_drop, bitAt_drop]
    by_cases hlow : i < 8 * (dof / 8)
    · rw [if_pos (by omega), if_pos hlow, if_neg (by omega), decide_eq_true hlow, Bool.true_and]
    · by_cases hmid : i < 8 * (dof / 8 + n / 8)
      · have hbit : i - 8 * (dof / 8) < 8 * (n / 8) := by omega
        rw [if_pos hmid, if_neg hlow, if_pos (by omega), decide_eq_true hbit, Bool.true_and]
        congr 1
        omega
      · rw [if_neg hmid, if_neg (by omega)]
        congr 1
        omega
  · rw [if_neg h]
    obtain ⟨hlen, hbits⟩ :=
      bitAt_foldl_putBit dst dof n (fun k => getBit src (so + k)) hd
    refine ⟨hlen, fun i => ?_⟩
    rw [hbits i, getBit_eq]

/-- Sign extension repeats the top bit received. -/
theorem signExtendPdoBits_spec {value : List UInt8} {n : ℕ} (hn : n + 1 ≤ 8 * value.length)
    (hzero : ∀ i, n + 1 ≤ i → bitAt value i = false) :
    (signExtendPdoBits value (n + 1)).length = value.length ∧
      ∀ i < 8 * value.length, bitAt (signExtendPdoBits value (n + 1)) i =
        if i < n + 1 then bitAt value i else bitAt value n := by
  unfold signExtendPdoBits
  by_cases hfull : value.length * 8 ≤ n + 1
  · rw [if_pos (.inr hfull)]
    refine ⟨rfl, fun i hi => ?_⟩
    rw [if_pos (by omega)]
  rw [if_neg (by omega), Nat.add_sub_cancel, getBit_eq]
  cases hsign : bitAt value n with
  | false =>
    refine ⟨rfl, fun i _ => ?_⟩
    by_cases hi : i < n + 1
    · simp [hi]
    · simp [hi, hzero i (by omega)]
  | true =>
    obtain ⟨hlen, hbits⟩ := bitAt_foldl_putBit value (n + 1) (value.length * 8 - (n + 1))
      (fun _ => true) (by omega)
    refine ⟨hlen, fun i hi => ?_⟩
    refine (hbits i).trans ?_
    by_cases hin : i < n + 1
    · rw [if_neg (by omega), if_pos hin]
    · rw [if_pos (by omega), if_neg hin]

/-- The loop that moves one bit after the other, without the byte-aligned path. -/
def copyPdoBitLoop (src : List UInt8) (srcBitOffset : ℕ) (dst : List UInt8) (dstBitOffset bitLen : ℕ) :
    List UInt8 :=
  (List.range bitLen).foldl
    (fun dst bit => putBit dst (dstBitOffset + bit) (getBit src (srcBitOffset + bit))) dst

theorem copyPdoBits_eq_loop {src dst : List UInt8} {so dof n : ℕ} (hs : so + n ≤ 8 * src.length)
    (hd : dof + n ≤ 8 * dst.length) :
    copyPdoBits src so dst dof n = copyPdoBitLoop src so dst dof n := by
  obtain ⟨hlen, hbits⟩ := copyPdoBits_spec hs hd
  obtain ⟨hlen', hbits'⟩ : (copyPdoBitLoop src so dst dof n).length = dst.length ∧ _ :=
    bitAt_foldl_putBit dst dof n (fun k => getBit src (so + k)) hd
  refine leNat_inj (hlen.trans hlen'.symm) (leNat_eq_of_bitAt fun i => ?_)
  rw [hbits i, ← getBit_eq src]
  exact (hbits' i).symm

theorem bmod_signExtendPdoBits {value : List UInt8} {n : ℕ} (hn : n + 1 ≤ 8 * value.length)
    (hzero : ∀ i, n + 1 ≤ i → bitAt value i = false) :
    Int.bmod (leNat (signExtendPdoBits value (n + 1))) (2 ^ (8 * value.length)) =
      Int.bmod (leNat value) (2 ^ (n + 1)) := by
  obtain ⟨hlen, hbits⟩ := signExtendPdoBits_spec hn hzero
  have hlow : leNat value < 2 ^ (n + 1) := by
    refine Nat.lt_pow_two_of_testBit _ fun i hi => ?_
    rw [← bitAt_eq_testBit, hzero i hi]
  rw [← hlen] at hn hbits ⊢
  refine bmod_of_sign_bits hn hlow fun i hi => ?_
  rw [hbits i hi, bitAt_eq_testBit, bitAt_eq_testBit]

/-- A copy sets the bits of its range to those of the source and leaves the others, on either path;
and a field that is sign-extended keeps its value in two's complement at the width of the slice. -/
theorem bit_copies_exact :
    (∀ (src dst : List UInt8) (srcBitOffset dstBitOffset bitLen : ℕ),
      srcBitOffset + bitLen ≤ 8 * src.length → dstBitOffset + bitLen ≤ 8 * dst.length →
        let out := copyPdoBits src srcBitOffset dst dstBitOffset bitLen
        out.length = dst.length ∧
          (∀ k < bitLen, getBit out (dstBitOffset + k) = getBit src (srcBitOffset + k)) ∧
          (∀ i, i < dstBitOffset ∨ dstBitOffset + bitLen ≤ i → getBit out i = getBit dst i) ∧
          out = copyPdoBitLoop src srcBitOffset dst dstBitOffset bitLen) ∧
    ∀ (value : List UInt8) (bits : ℕ), (∀ i, bits ≤ i → getBit value i = false) →
      (signExtendPdoBits value bits).length = value.length ∧
        (0 < bits → bits ≤ 8 * value.length →
          Int.bmod (leNat (signExtendPdoBits value bits)) (2 ^ (8 * value.length)) =
            Int.bmod (leNat value) (2 ^ bits)) ∧
        (bits = 0 ∨ 8 * value.length ≤ bits → signExtendPdoBits value bits = value) := by
  constructor
  · intro src dst so dof n hs hd
    obtain ⟨hlen, hbits⟩ := copyPdoBits_spec hs hd
    refine ⟨hlen, fun k hk => ?_, fun i hi => ?_, copyPdoBits_eq_loop hs hd⟩
    · rw [getBit_eq, getBit_eq, hbits, if_pos (by omega), Nat.add_sub_cancel_left]
    · rw [getBit_eq, getBit_eq, hbits, if_neg (by omega)]
  · intro value bits hzero
    have hsame (h : bits = 0 ∨ 8 * value.length ≤ bits) : signExtendPdoBits value bits = value := by
      rw [signExtendPdoBits, if_pos (by omega)]
    refine ⟨?_, fun hpos hle => ?_, hsame⟩
    · by_cases h : bits = 0 ∨ 8 * value.length ≤ bits
      · rw [hsame h]
      · obtain ⟨n, rfl⟩ := Nat.exists_eq_succ_of_ne_zero (not_or.mp h).1
        exact (signExtendPdoBits_spec (by omega) fun i hi => (getBit_eq value i).symm.trans (hzero i hi)).1
    · obtain ⟨n, rfl⟩ := Nat.exists_eq_succ_of_ne_zero hpos.ne'
      exact bmod_signExtendPdoBits hle fun i hi => (getBit_eq value i).symm.trans (hzero i hi)

/-- Three bits moved across a byte boundary, and extended to a byte. -/
theorem bit_copies_exact_unaligned :
    copyPdoBits [0xFF, 0x01] 6 [0x00] 2 3 = copyPdoBitLoop [0xFF, 0x01] 6 [0x00] 2 3 ∧
      signExtendPdoBits [0x05] 3 = [0xFD] ∧
      Int.bmod (leNat (signExtendPdoBits [0x05] 3)) (2 ^ 8) = -3 := by
  refine ⟨(bit_copies_exact.1 _ _ 6 2 3 (by decide) (by decide)).2.2.2, by decide, ?_⟩
  have hzero : ∀ i, 3 ≤ i → getBit [0x05] i = false := by
    intro i hi
    by_cases hlt : i < 8
    · interval_cases i <;> decide
    · rw [getBit_eq, bitAt_of_le (by simpa using hlt)]
  exact ((bit_copies_exact.2 [0x05] 3 hzero).2.1 (by decide) (by decide)).trans (by decide)

/-! ## Numbers -/

/-- Integers of every width and booleans. -/
def isIntegral : DataType → Bool
  | .boolean | .u8 | .u16 | .u24 | .u32 | .u64 | .i8 | .i16 | .i24 | .i32 | .i64 => true
  | _ => false

def intValue (t : DataType) (bytes : List UInt8) : ℤ :=
  if isSignedInteger t then Int.bmod (leNat bytes) (2 ^ (8 * bytes.length)) else leNat bytes

/-- The low `n` bits of a number, sign-extended for signed types. -/
def narrow (t : DataType) (n : ℕ) (v : ℤ) : ℤ :=
  if isSignedInteger t then Int.bmod v (2 ^ n) else v % 2 ^ n

theorem narrow_intValue (t : DataType) {n : ℕ} {bytes : List UInt8} (h : n ≤ 8 * bytes.length) :
    narrow t n (intValue t bytes) = narrow t n (leNat bytes % 2 ^ n : ℕ) := by
  unfold narrow intValue
  cases isSignedInteger t with
  | true =>
    simp only [if_true]
    rw [Int.bmod_bmod_of_dvd (Nat.pow_dvd_pow 2 h), Int.natCast_mod, Int.emod_bmod]
  | false => simp

/-- A bit field received into cleared bytes, and widened, is its number in the low bits. -/
theorem intValue_widened (t : DataType) {data v : List UInt8} {off n : ℕ} (hn : 1 ≤ n)
    (hlen : n ≤ 8 * v.length) (h : ∀ i, bitAt v i = (decide (i < n) && bitAt data (off + i))) :
    intValue t (if isSignedInteger t then signExtendPdoBits v n else v) =
      narrow t n (field data off n) := by
  obtain ⟨n, rfl⟩ : ∃ k, n = k + 1 := ⟨n - 1, by omega⟩
  have hfield : ∀ i, bitAt v i = (decide (i < n + 1) && (field data off (n + 1)).testBit i) := by
    intro i
    rw [h i, testBit_field, ← Bool.and_assoc, Bool.and_self]
  have hlt := field_lt data off (n + 1)
  unfold intValue narrow
  cases isSignedInteger t with
  | true =>
    have hzero : ∀ i, n + 1 ≤ i → bitAt v i = false := by
      intro i hi
      rw [h i, decide_eq_false (by omega), Bool.false_and]
    obtain ⟨hsize, hbits⟩ := signExtendPdoBits_spec hlen hzero
    simp only [if_true]
    refine bmod_of_sign_bits (by rw [hsize]; exact hlen) hlt fun i hi => ?_
    rw [hsize] at hi
    rw [hbits i hi, hfield i, hfield n]
    by_cases hin : i < n + 1
    · simp [hin]
    · simp [hin]
  | false =>
    have hvalue : leNat v = field data off (n + 1) := leNat_of_bits hlt hfield
    have hmod : field data off (n + 1) % 2 ^ (n + 1) = field data off (n + 1) := Nat.mod_eq_of_lt hlt
    simp only [Bool.false_eq_true, if_false]
    rw [hvalue]
    exact_mod_cast hmod.symm

/-! ## What a frame carries -/

/-- One entry of a frame: its bits, and the typed number they are the low bits of. Padding
has none. -/
structure PdoItem where
  bits : ℕ
  value : Option (DataType × ℕ)

/-- The payload carries the items from a bit offset on. -/
def Carries (data : List UInt8) : List PdoItem → ℕ → Prop
  | [], _ => True
  | item :: items, off =>
    (∀ t x, item.value = some (t, x) → field data off item.bits = x % 2 ^ item.bits) ∧
      Carries data items (off + item.bits)

def itemBits (items : List PdoItem) : ℕ := (items.map (·.bits)).sum

@[simp] theorem itemBits_nil : itemBits [] = 0 := rfl

@[simp] theorem itemBits_cons (item : PdoItem) (items : List PdoItem) :
    itemBits (item :: items) = item.bits + itemBits items := by
  simp [itemBits]

theorem Carries.congr {as bs : List UInt8} {items : List PdoItem} {off : ℕ}
    (h : Carries as items off)
    (hbits : ∀ i, off ≤ i → i < off + itemBits items → bitAt bs i = bitAt as i) :
    Carries bs items off := by
  induction items generalizing off with
  | nil => trivial
  | cons item items ih =>
    rw [itemBits_cons] at hbits
    refine ⟨fun t x hx => ?_, ih h.2 fun i hle hlt => hbits i (by omega) (by omega)⟩
    rw [← h.1 t x hx]
    exact field_congr fun i hi => hbits (off + i) (by omega) (by omega)

theorem Carries.take {data : List UInt8} {items : List PdoItem} (h : Carries data items 0) :
    Carries (data.take (bytesForBits (itemBits items))) items 0 := by
  refine h.congr fun i _ hi => ?_
  have hlt : i < 8 * bytesForBits (itemBits items) := by
    unfold bytesForBits
    omega
  rw [bitAt_take, decide_eq_true hlt, Bool.true_and]

/-- Copying the low bits of a number behind the items already carried. -/
theorem carries_copy {src data data' : List UInt8} {item : PdoItem} {items : List PdoItem} {off : ℕ}
    {t : DataType} {x : ℕ} (hvalue : item.value = some (t, x)) (hs : item.bits ≤ 8 * src.length)
    (hd : off + item.bits ≤ 8 * data.length) (hx : field src 0 item.bits = x % 2 ^ item.bits)
    (hcarries : Carries data' items (off + item.bits))
    (hbits : ∀ i < off + item.bits,
      bitAt data' i = bitAt (copyPdoBits src 0 data off item.bits) i) :
    Carries data' (item :: items) off ∧ ∀ i < off, bitAt data' i = bitAt data i := by
  obtain ⟨-, hcopied⟩ := @copyPdoBits_spec src data 0 off item.bits (by omega) hd
  refine ⟨⟨fun t' x' hx' => ?_, hcarries⟩, fun i hi => ?_⟩
  · cases hvalue.symm.trans hx'
    rw [← hx]
    refine field_congr fun i hi => ?_
    rw [hbits _ (by omega), hcopied, if_pos (by omega)]
    congr 1
    omega
  · rw [hbits i (by omega), hcopied, if_neg (by omega)]

variable {OD : Type} [ObjectDictionary OD]

/-- The entry is padding, or its object reads as a number at least as wide. -/
def Supplies (od : OD) (item : PdoItem) (m : PdoMapping) : Prop :=
  item.bits = m.bitLength.toNat ∧
    match item.value with
    | none => isDummyMappingIndex m.index = true
    | some (_, x) => isDummyMappingIndex m.index = false ∧
        ∃ k buf, ObjectDictionary.read od m.index m.subindex (FixedBuffer.filled 8 0) = (.ok k, buf) ∧
          item.bits ≤ 8 * k.1 ∧ field buf.cells 0 item.bits = x % 2 ^ item.bits

theorem buildPayload_spec {od : OD} {items : List PdoItem} {ms : List PdoMapping}
    (h : List.Forall₂ (Supplies od) items ms) {data : List UInt8} {off : ℕ}
    (hlen : data.length = 8) (hfit : off + itemBits items ≤ 64) :
    ∃ data', TpdoSlot.buildPayload od ms data off = some (data', off + itemBits items) ∧
      data'.length = 8 ∧ Carries data' items off ∧ ∀ i < off, bitAt data' i = bitAt data i := by
  induction h generalizing data off with
  | nil => exact ⟨data, rfl, hlen, trivial, fun _ _ => rfl⟩
  | @cons item m items ms hm _ ih =>
    obtain ⟨hn, hm⟩ := hm
    rw [itemBits_cons, ← Nat.add_assoc] at hfit ⊢
    unfold TpdoSlot.buildPayload
    dsimp only
    rw [← hn, if_neg (by omega)]
    cases hvalue : item.value with
    | none =>
      rw [hvalue] at hm
      obtain ⟨data', hbuild, hlen', hcarries, hbits⟩ := ih hlen hfit
      refine ⟨data', by rw [if_pos hm, hbuild], hlen', ⟨?_, hcarries⟩, fun i hi => hbits i (by omega)⟩
      intro t x hx
      cases hvalue.symm.trans hx
    | some value =>
      obtain ⟨t, x⟩ := value
      rw [hvalue] at hm
      obtain ⟨hdummy, k, buf, hread, hwide, hx⟩ := hm
      have hk := k.2
      have hsrc : item.bits ≤ 8 * buf.cells.length := by
        rw [buf.length_cells]
        omega
      obtain ⟨hcopy, -⟩ := @copyPdoBits_spec buf.cells data 0 off item.bits (by omega) (by omega)
      obtain ⟨data', hbuild, hlen', hcarries, hbits⟩ := ih (hcopy.trans hlen) hfit
      refine ⟨data', ?_, hlen', carries_copy hvalue hsrc (by omega) hx hcarries hbits⟩
      rw [hdummy, if_neg (by decide), hread]
      dsimp only
      rw [if_neg (by omega), hbuild]

theorem bytesForBits_le {bits : ℕ} (h : bits ≤ 64) : bytesForBits bits ≤ 8 := by
  unfold bytesForBits
  omega

theorem new_carries {cobId : UInt16} {data : List UInt8} {items : List PdoItem}
    (hcob : cobId ≤ 0x7FF) (hlen : data.length = 8) (hfit : itemBits items ≤ 64)
    (hcarries : Carries data items 0) :
    ∃ frame, CanFrame.new cobId (data.take (bytesForBits (itemBits items))) = some frame ∧
      frame.id = cobId ∧ frame.data.length = bytesForBits (itemBits items) ∧
      Carries frame.data items 0 := by
  have hbytes := bytesForBits_le hfit
  have htake : (data.take (bytesForBits (itemBits items))).length = bytesForBits (itemBits items) := by
    rw [List.length_take]
    omega
  exact ⟨_, CanFrame.new_eq_some hcob (htake.trans_le hbytes), rfl, htake, hcarries.take⟩

theorem buildPdoFrame_spec {od : OD} {slot : TpdoSlot} {items : List PdoItem}
    (h : List.Forall₂ (Supplies od) items slot.config.mappings) (hfit : itemBits items ≤ 64)
    (hcob : slot.config.cobId ≤ 0x7FF) :
    ∃ frame, slot.buildPdoFrame od = some frame ∧ frame.id = slot.config.cobId ∧
      frame.data.length = bytesForBits (itemBits items) ∧ Carries frame.data items 0 := by
  obtain ⟨data, hbuild, hlen, hcarries, -⟩ :=
    buildPayload_spec h (List.length_replicate : (List.replicate 8 (0 : UInt8)).length = 8)
      ((Nat.zero_add _).trans_le hfit)
  obtain ⟨frame, hnew, hframe⟩ := new_carries hcob hlen hfit hcarries
  rw [Nat.zero_add] at hbuild
  refine ⟨frame, ?_, hframe⟩
  unfold TpdoSlot.buildPdoFrame
  rw [hbuild, ← hnew]

/-! ## What a receiver writes -/

theorem bytesForBits_le_iff {n size : ℕ} : bytesForBits n ≤ size ↔ n ≤ 8 * size := by
  unfold bytesForBits
  omega

theorem rpdoObjectData_eq {od : OD} {m : PdoMapping} {info : OdEntryMeta} {size : ℕ}
    (hl : ObjectDictionary.lookup od m.index m.subindex = some info)
    (hs : info.dataType.size = some size) (hsize : size ≤ 8) (hn : m.bitLength.toNat ≤ 8 * size)
    (data : List UInt8) (off : ℕ) :
    rpdoObjectData od m data off =
      if isSignedInteger info.dataType then
        signExtendPdoBits
          ((copyPdoBits data off (List.replicate 8 0) 0 m.bitLength.toNat).take size) m.bitLength.toNat
      else (copyPdoBits data off (List.replicate 8 0) 0 m.bitLength.toNat).take size := by
  unfold rpdoObjectData
  simp only [hl, hs]
  rw [if_pos ⟨bytesForBits_le_iff.mpr hn, hsize⟩]

theorem bitAt_copy_cleared {data : List UInt8} {off n k : ℕ} (hn : n ≤ 8 * k)
    (hfit : off + n ≤ 8 * data.length) (i : ℕ) :
    bitAt (copyPdoBits data off (List.replicate k 0) 0 n) i =
      (decide (i < n) && bitAt data (off + i)) := by
  obtain ⟨-, hbits⟩ := @copyPdoBits_spec data (List.replicate k 0) off 0 n hfit
    (by rw [List.length_replicate]; omega)
  rw [hbits i]
  by_cases hi : i < n
  · rw [if_pos (by omega), decide_eq_true hi, Bool.true_and, Nat.sub_zero]
  · rw [if_neg (by omega), decide_eq_false hi, Bool.false_and, bitAt_replicate_zero]

/-- A receiver writes the object's width, and the number received. -/
theorem rpdoObjectData_spec {od : OD} {m : PdoMapping} {info : OdEntryMeta} {size : ℕ}
    (hl : ObjectDictionary.lookup od m.index m.subindex = some info)
    (hs : info.dataType.size = some size) (hsize : size ≤ 8) (hn : m.bitLength.toNat ≤ 8 * size)
    {data : List UInt8} {off : ℕ} (hfit : off + m.bitLength.toNat ≤ 8 * data.length) :
    (rpdoObjectData od m data off).length = size ∧
      (1 ≤ m.bitLength.toNat → intValue info.dataType (rpdoObjectData od m data off) =
        narrow info.dataType m.bitLength.toNat (field data off m.bitLength.toNat)) := by
  rw [rpdoObjectData_eq hl hs hsize hn]
  have hbits : ∀ i, bitAt ((copyPdoBits data off (List.replicate 8 0) 0 m.bitLength.toNat).take size) i =
      (decide (i < m.bitLength.toNat) && bitAt data (off + i)) := by
    intro i
    rw [bitAt_take, bitAt_copy_cleared (by omega) hfit, ← Bool.and_assoc]
    congr 1
    by_cases hi : i < m.bitLength.toNat
    · simp [hi, hi.trans_le hn]
    · simp [hi]
  have hlen : ((copyPdoBits data off (List.replicate 8 0) 0 m.bitLength.toNat).take size).length =
      size := by
    obtain ⟨hcopy, -⟩ := @copyPdoBits_spec data (List.replicate 8 0) off 0 m.bitLength.toNat hfit
      (by rw [List.length_replicate]; omega)
    rw [List.length_take, hcopy, List.length_replicate]
    omega
  generalize (copyPdoBits data off (List.replicate 8 0) 0 m.bitLength.toNat).take size = v at hbits hlen
  refine ⟨?_, fun hpos => intValue_widened _ hpos (by rw [hlen]; exact hn) hbits⟩
  split_ifs with hsigned
  · cases hpos : m.bitLength.toNat with
    | zero => simp [signExtendPdoBits, hlen]
    | succ n =>
      rw [hpos] at hbits hn
      have hzero : ∀ i, n + 1 ≤ i → bitAt v i = false := by
        intro i hi
        rw [hbits i, decide_eq_false (by omega), Bool.false_and]
      rw [(signExtendPdoBits_spec (by rw [hlen]; exact hn) hzero).1, hlen]
  · exact hlen

end Canopen.Pdo
