import Canopen.Transport

/-!
# SYNC object

The SYNC consumer, producer and transmission window of `sync.rs`, and the
decoding of the COB-ID object 0x1005.
-/

namespace Canopen

def syncCobIdDefault : UInt16 := 0x080

/-- OD 0x1005 bit 30: the device generates SYNC. -/
def syncGen : UInt32 := 0x40000000

/-- OD 0x1005 bit 29: 29-bit SYNC frames, which this stack does not support. -/
def syncFrame29Bit : UInt32 := 0x20000000

/-- Reserved bits of OD 0x1005: bit 31 and bits 11..=28. -/
def syncCobIdReserved : UInt32 := 0x80000000 ||| 0x1FFFF800

def syncCounterOverflowMax : UInt8 := 240

def isValidSyncCounterOverflow (value : UInt8) : Bool :=
  value == 0 || (2 ≤ value && value ≤ syncCounterOverflowMax)

def isSupportedSyncCobId (raw : UInt32) : Bool :=
  raw &&& (syncFrame29Bit ||| syncCobIdReserved) == 0 && raw &&& 0x7FF != 0

/-- Decoded OD 0x1005. -/
structure SyncCobId where
  cobId : UInt16
  produce : Bool
  deriving DecidableEq, Repr

namespace SyncCobId

def default : SyncCobId := ⟨syncCobIdDefault, false⟩

/-- `none` means the entry describes no usable SYNC object. -/
def fromRaw (raw : UInt32) : Option SyncCobId :=
  if isSupportedSyncCobId raw then
    some ⟨(raw &&& 0x7FF).toUInt16, raw &&& syncGen != 0⟩
  else none

end SyncCobId

/-- SYNC consumer; COB-ID 0 means disabled. -/
structure SyncConsumer where
  cob : UInt16
  counter : UInt8
  deriving DecidableEq, Repr

namespace SyncConsumer

def new (cobId : UInt16) : SyncConsumer := ⟨cobId, 0⟩

def cobId (c : SyncConsumer) : Option UInt16 := if c.cob = 0 then none else some c.cob

/-- The counter restarts only when the COB-ID actually changes. -/
def setCobId (c : SyncConsumer) (cobId : UInt16) : SyncConsumer :=
  if c.cob ≠ cobId then ⟨cobId, 0⟩ else c

def reset (c : SyncConsumer) : SyncConsumer := { c with counter := 0 }

/-- The SYNC counter value when the frame is a SYNC on the configured COB-ID. -/
def process (c : SyncConsumer) (frame : CanFrame) : SyncConsumer × Option UInt8 :=
  if c.cob = 0 ∨ frame.id ≠ c.cob ∨ 1 < frame.rawDlc then (c, none)
  else if frame.rawDlc = 1 then
    let counter := frame.data.getD 0 0
    ({ c with counter := counter }, some counter)
  else ({ c with counter := c.counter + 1 }, some (c.counter + 1))

@[simp] theorem setCobId_cob (c : SyncConsumer) (cobId : UInt16) : (c.setCobId cobId).cob = cobId := by
  unfold setCobId
  split_ifs with h
  · rfl
  · simpa using h

@[simp] theorem reset_cob (c : SyncConsumer) : c.reset.cob = c.cob := rfl

@[simp] theorem process_cob (c : SyncConsumer) (frame : CanFrame) : (c.process frame).1.cob = c.cob := by
  unfold process
  split_ifs <;> rfl

end SyncConsumer

/-- Runtime state of OD 0x1007, the synchronous PDO transmission window. -/
structure SyncWindow where
  lengthUs : UInt64
  openedAtUs : UInt64
  active : Bool
  deriving DecidableEq, Repr

namespace SyncWindow

def new : SyncWindow := ⟨0, 0, false⟩

def configure (w : SyncWindow) (lengthUs : UInt64) : SyncWindow := { w with lengthUs := lengthUs }

def «open» (w : SyncWindow) (nowUs : UInt64) : SyncWindow :=
  { w with openedAtUs := nowUs, active := true }

def reset (w : SyncWindow) : SyncWindow := { w with openedAtUs := 0, active := false }

/-- The boundary itself is inside the window. -/
def allowsTransmit (w : SyncWindow) (nowUs : UInt64) : Bool :=
  w.active && (w.lengthUs == 0 || nowUs - w.openedAtUs ≤ w.lengthUs)

end SyncWindow

/-- SYNC producer, inert until its COB-ID and period are both nonzero. -/
structure SyncProducer where
  cobId : UInt16
  intervalUs : UInt64
  overflow : UInt8
  lastSentUs : UInt64
  armed : Bool
  counter : UInt8
  deriving DecidableEq, Repr

namespace SyncProducer

def new : SyncProducer := ⟨0, 0, 0, 0, false, 0⟩

/-- Phase and counter restart only when something actually changed. -/
def configure (p : SyncProducer) (cobId : UInt16) (intervalUs : UInt64) (overflow : UInt8) :
    SyncProducer :=
  if p.cobId = cobId ∧ p.intervalUs = intervalUs ∧ p.overflow = overflow then p
  else
    { p with cobId := cobId, intervalUs := intervalUs, overflow := overflow, armed := false,
             counter := 0 }

def isEnabled (p : SyncProducer) : Bool := p.cobId != 0 && p.intervalUs != 0

def reset (p : SyncProducer) : SyncProducer :=
  { p with armed := false, lastSentUs := 0, counter := 0 }

/-- The counter value the next pulse will carry. -/
def peekCounter (p : SyncProducer) : UInt8 :=
  if p.overflow ≤ p.counter then 1 else p.counter + 1

/-- The SYNC frame due at `nowUs`. The first call only establishes the time base. -/
def poll (p : SyncProducer) (nowUs : UInt64) : SyncProducer × Option CanFrame :=
  if !p.isEnabled then (p, none)
  else if !p.armed then ({ p with armed := true, lastSentUs := nowUs }, none)
  else if nowUs - p.lastSentUs < p.intervalUs then (p, none)
  else if 2 ≤ p.overflow then (p, CanFrame.new p.cobId [p.peekCounter])
  else (p, CanFrame.new p.cobId [])

/-- Commit the pulse `poll` handed out, once the transport accepted it. -/
def confirmSent (p : SyncProducer) (nowUs : UInt64) : SyncProducer :=
  { p with lastSentUs := nowUs, counter := if 2 ≤ p.overflow then p.peekCounter else p.counter }

theorem poll_config (p : SyncProducer) (nowUs : UInt64) :
    (p.poll nowUs).1.cobId = p.cobId ∧ (p.poll nowUs).1.intervalUs = p.intervalUs ∧
      (p.poll nowUs).1.overflow = p.overflow := by
  unfold poll
  split_ifs <;> exact ⟨rfl, rfl, rfl⟩

end SyncProducer
end Canopen
