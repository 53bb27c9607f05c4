import Canopen.Lib.Runs
import Canopen.Sdo.ClientProgress

/-!
# SDO driver

The asynchronous driver of `sdo/driver.rs`. It carries one transfer from the request to
its end over a transport that it does not own: every send and every receive is a future
that is polled until it is ready. Here one step of the driver is one such poll, and the
transport and the clock are whatever they answer, so a list of answers is a run.
-/

namespace Canopen.Sdo

/-- The answer of a future to one poll. -/
inductive Poll (α : Type)
  | pending
  | ready (value : α)
  deriving DecidableEq, Repr

/-- The errors of a transfer, with those of the transport (`E`) and of time. -/
inductive DriverError (E : Type)
  | sdo (error : SdoError)
  | transport (e : E)
  | timeout
  deriving DecidableEq, Repr

/-- One budget for all waits of a transfer. Elapsed times are compared, so a transfer may
run across the wrap of the clock. -/
structure TransferDeadline where
  started : UInt64
  timeoutUs : UInt64
  deriving DecidableEq, Repr

namespace TransferDeadline

/-- A saturating subtraction of a wrapping one. -/
def remaining (d : TransferDeadline) (now : UInt64) : UInt64 :=
  let elapsed := now - d.started
  if d.timeoutUs ≤ elapsed then 0 else d.timeoutUs - elapsed

theorem remaining_eq_zero_iff {d : TransferDeadline} {now : UInt64} :
    d.remaining now = 0 ↔ d.timeoutUs ≤ now - d.started := by
  simp only [remaining]
  by_cases h : d.timeoutUs ≤ now - d.started
  · simp [h]
  · simp only [h, if_false, iff_false]
    intro hzero
    have hsub := congrArg UInt64.toNat hzero
    rw [UInt64.toNat_sub_of_le _ _ (UInt64.le_of_lt (UInt64.not_le.mp h)), UInt64.toNat_zero] at hsub
    rw [UInt64.le_iff_toNat_le] at h
    omega

end TransferDeadline

/-- What the transport and the clock answer at one poll. -/
structure Wake (E : Type) where
  /-- The clock where the wait is entered; read once for each wait. -/
  entered : UInt64
  now : UInt64
  transmit : Poll (Except E Unit)
  receive : Poll (Except E CanFrame)
  /-- The timer armed for the wait has fired. Only with the `embassy` feature. -/
  timer : Bool
  /-- The answer to the abort of a transfer that breaks off here. -/
  abort : Poll (Except E Unit)
  deriving DecidableEq, Repr

section
variable {E R α : Type}

/-- The deadline has passed before the transport is polled. -/
def expired (deadline : Option TransferDeadline) (entered : Bool) (w : Wake E) : Bool :=
  deadline.any fun d => (!entered && d.remaining w.entered == 0) || d.remaining w.now == 0

/-- One poll of a wait of the transport that may have a deadline. -/
def withDeadline (deadline : Option TransferDeadline) (entered : Bool) (w : Wake E)
    (answer : Poll (Except E α)) : Poll (Except (DriverError E) α) :=
  if expired deadline entered w then .ready (.error .timeout)
  else
    match answer with
    | .ready (.ok a) => .ready (.ok a)
    | .ready (.error e) => .ready (.error (.transport e))
    | .pending => if deadline.isSome && w.timer then .ready (.error .timeout) else .pending

/-! ## Transfers -/

/-- Drives the transfers with a single remote node. -/
structure SdoDriver where
  target : NodeId
  deriving DecidableEq, Repr

def SdoDriver.responseCob (d : SdoDriver) : UInt16 := CobId.sdoTx d.target

/-- How a transfer goes on after a result of the client. -/
inductive Turn (R : Type)
  | send (next : CanFrame)
  | wait
  /-- The server knows about the end. -/
  | settled (outcome : Except SdoError R)
  /-- The server may still be inside the transfer. -/
  | broken (error : SdoError)
  deriving Repr

/-- The abort code for a transfer that broke off. A transport that failed gets no abort. -/
def abortCode : DriverError E → Option AbortCode
  | .timeout => some .sdoProtocolTimeout
  | .sdo .protocolError => some .invalidCommandSpecifier
  | .sdo _ | .transport _ => none

/-- One call of the driver: what it does with the results of its client. Only an end that
the server does not know about is a protocol error. -/
structure Call (R : Type) where
  driver : SdoDriver
  index : UInt16
  subindex : UInt8
  deadline : Option TransferDeadline
  turn : SdoClient SdoDriver.maxTransfer → SdoClientResult → Turn R
  turn_sendNext : ∀ client next, turn client (.sendNext next) = .send next
  turn_ignoredAbort : ∀ client, turn client .ignoredAbort = .wait
  turn_ends : ∀ client result, (∀ next, result ≠ .sendNext next) → result ≠ .ignoredAbort →
    (∃ outcome, turn client result = .settled outcome ∧ outcome ≠ .error .protocolError) ∨
      turn client result = .broken .protocolError

/-- Where a transfer waits. The first send stands before the part that ends in an abort. -/
inductive Wait
  | request (frame : CanFrame)
  | response
  | next (frame : CanFrame)
  deriving DecidableEq, Repr

/-- A transfer between two polls; `entered` once the current wait has read the clock. -/
inductive DriverState (E R : Type)
  | waiting (client : SdoClient SdoDriver.maxTransfer) (wait : Wait) (entered : Bool)
  | finished (result : Except (DriverError E) R)

/-- What passes the transport: frames it took, frames it handed out, and the abort that is
offered to it once. -/
inductive Passed
  | sent (frame : CanFrame)
  | received (frame : CanFrame)
  | abort (frame : CanFrame)
  deriving DecidableEq, Repr

theorem SdoFrame.length_toList_le (frame : SdoFrame) : frame.toList.length ≤ 8 :=
  Nat.le_of_eq frame.length_toList

namespace Call

variable (call : Call R)

def abortFrame (code : AbortCode) : CanFrame :=
  ⟨CobId.sdoRx call.driver.target, (encodeAbort call.index call.subindex code).toList,
    CobId.sdoRx_le _, SdoFrame.length_toList_le _⟩

/-- `finish` for a transfer that broke off. -/
def finish (error : DriverError E) : DriverState E R × List Passed :=
  (.finished (.error error), (abortCode error).toList.map fun code => .abort (call.abortFrame code))

def onResponse (client : SdoClient SdoDriver.maxTransfer) (frame : CanFrame) : DriverState E R × List Passed :=
  let (client', result) := client.processResponse (.ofData frame.data)
  match call.turn client' result with
  | .send next => (.waiting client' (.next next) false, [])
  | .wait => (.waiting client' .response false, [])
  | .settled outcome => (.finished (outcome.mapError .sdo), [])
  | .broken error => call.finish (.sdo error)

/-- `receive_response` for one frame: frames of others are passed over. -/
def onReceive (client : SdoClient SdoDriver.maxTransfer) (frame : CanFrame) : DriverState E R × List Passed :=
  if frame.id ≠ call.driver.responseCob then (.waiting client .response false, [])
  else if frame.rawDlc ≠ 8 then call.finish (.sdo .protocolError)
  else call.onResponse client frame

def poll (client : SdoClient SdoDriver.maxTransfer) (wait : Wait) (entered : Bool) (w : Wake E) :
    DriverState E R × List Passed :=
  match wait with
  | .request frame =>
    match withDeadline call.deadline entered w w.transmit with
    | .pending => (.waiting client wait true, [])
    | .ready (.error error) => (.finished (.error error), [])
    | .ready (.ok ()) => (.waiting client .response false, [.sent frame])
  | .response =>
    match withDeadline call.deadline entered w w.receive with
    | .pending => (.waiting client wait true, [])
    | .ready (.error error) => call.finish error
    | .ready (.ok frame) =>
      let (transfer, passed) := call.onReceive client frame
      (transfer, .received frame :: passed)
  | .next frame =>
    match withDeadline call.deadline entered w w.transmit with
    | .pending => (.waiting client wait true, [])
    | .ready (.error error) => call.finish error
    | .ready (.ok ()) => (.waiting client .response false, [.sent frame])

/-- A finished transfer is not polled again. -/
def step : DriverState E R → Wake E → Option (DriverState E R)
  | .waiting client wait entered, w => some (call.poll client wait entered w).1
  | .finished _, _ => none

def passed : DriverState E R → Wake E → List Passed
  | .waiting client wait entered, w => (call.poll client wait entered w).2
  | .finished _, _ => []

/-- The times at which the transport is polled for the transfer itself. -/
def polled : DriverState E R → Wake E → List UInt64
  | .waiting _ _ entered, w => if expired call.deadline entered w then [] else [w.now]
  | .finished _, _ => []

end Call

/-! ## Uploads and downloads -/

/-- A completed upload: the caller's buffer with the data at its front. -/
structure Uploaded where
  buf : List UInt8
  len : ℕ
  sizeIndicated : Bool
  deriving DecidableEq, Repr

/-- The loop of `upload_impl` after a response. -/
def uploadTurn (buf : List UInt8) (client : SdoClient SdoDriver.maxTransfer) :
    SdoClientResult → Turn Uploaded
  | .uploadComplete dataLen =>
    if buf.length < dataLen then .settled (.error .tooLarge)
    else .settled (.ok ⟨client.data.take dataLen ++ buf.drop dataLen, dataLen, client.uploadSizeIndicated⟩)
  | .sendNext next => .send next
  | .aborted code => .settled (.error (.aborted code))
  | .ignoredAbort => .wait
  | .downloadComplete | .error => .broken .protocolError

/-- The loop of `download_impl` after a response. -/
def downloadTurn (_ : SdoClient SdoDriver.maxTransfer) : SdoClientResult → Turn Unit
  | .downloadComplete => .settled (.ok ())
  | .sendNext next => .send next
  | .aborted code => .settled (.error (.aborted code))
  | .ignoredAbort => .wait
  | .uploadComplete _ | .error => .broken .protocolError

theorem uploadTurn_ends {buf : List UInt8} {client : SdoClient SdoDriver.maxTransfer}
    {result : SdoClientResult} (hnext : ∀ next, result ≠ .sendNext next) (hignored : result ≠ .ignoredAbort) :
    (∃ outcome, uploadTurn buf client result = .settled outcome ∧ outcome ≠ .error .protocolError) ∨
      uploadTurn buf client result = .broken .protocolError := by
  cases result with
  | uploadComplete dataLen =>
    left
    simp only [uploadTurn]
    split
    · exact ⟨_, rfl, by simp⟩
    · exact ⟨_, rfl, by simp⟩
  | sendNext next => exact absurd rfl (hnext next)
  | aborted code => exact .inl ⟨_, rfl, by simp⟩
  | ignoredAbort => exact absurd rfl hignored
  | downloadComplete | error => exact .inr rfl

theorem downloadTurn_ends {client : SdoClient SdoDriver.maxTransfer} {result : SdoClientResult}
    (hnext : ∀ next, result ≠ .sendNext next) (hignored : result ≠ .ignoredAbort) :
    (∃ outcome, downloadTurn client result = .settled outcome ∧ outcome ≠ .error .protocolError) ∨
      downloadTurn client result = .broken .protocolError := by
  cases result with
  | downloadComplete => exact .inl ⟨_, rfl, by simp⟩
  | sendNext next => exact absurd rfl (hnext next)
  | aborted code => exact .inl ⟨_, rfl, by simp⟩
  | ignoredAbort => exact absurd rfl hignored
  | uploadComplete | error => exact .inr rfl

namespace SdoDriver

variable (d : SdoDriver) (index : UInt16) (subindex : UInt8)

def uploadCall (buf : List UInt8) (deadline : Option TransferDeadline) : Call Uploaded where
  driver := d
  index := index
  subindex := subindex
  deadline := deadline
  turn := uploadTurn buf
  turn_sendNext _ _ := rfl
  turn_ignoredAbort _ := rfl
  turn_ends _ _ := uploadTurn_ends

def downloadCall (deadline : Option TransferDeadline) : Call Unit where
  driver := d
  index := index
  subindex := subindex
  deadline := deadline
  turn := downloadTurn
  turn_sendNext _ _ := rfl
  turn_ignoredAbort _ := rfl
  turn_ends _ _ := downloadTurn_ends

/-- `upload_impl` up to its first wait. -/
def startUpload : DriverState E Uploaded :=
  let (client, request) := (SdoClient.new d.target).startUpload index subindex
  .waiting client (.request request) false

/-- `download_impl` up to its first wait. -/
def startDownload (data : List UInt8) : DriverState E Unit :=
  match (SdoClient.new d.target).startDownload index subindex data with
  | (client, some request) => .waiting client (.request request) false
  | (_, none) => .finished (.error (.sdo .tooLarge))

end SdoDriver

/-! ## Runs -/

namespace Passed

def sent? : Passed → Option CanFrame
  | .sent frame => some frame
  | .received _ | .abort _ => none

def received? : Passed → Option CanFrame
  | .received frame => some frame
  | .sent _ | .abort _ => none

def abort? : Passed → Option CanFrame
  | .abort frame => some frame
  | .sent _ | .received _ => none

end Passed

/-- The frames the transport took, oldest first. -/
def sentFrames (log : List Passed) : List CanFrame := log.filterMap Passed.sent?

def abortFrames (log : List Passed) : List CanFrame := log.filterMap Passed.abort?

namespace Call

/-- Whether a frame is a response of the server. -/
def answered (call : Call R) (frame : CanFrame) : Bool := frame.id == call.driver.responseCob

/-- The SDO responses of the server among the frames handed out. -/
def responses (call : Call R) (log : List Passed) : List SdoFrame :=
  ((log.filterMap Passed.received?).filter fun frame => call.answered frame && frame.rawDlc == 8).map
    fun frame => .ofData frame.data

variable (call : Call R) (client₀ : SdoClient SdoDriver.maxTransfer)

/-- What has passed the transport before the transfer is over: the client has gone through the
responses, and everything it asked for is sent or about to be sent. -/
structure Underway (request : CanFrame) (log : List Passed) (client : SdoClient SdoDriver.maxTransfer)
    (wait : Wait) : Prop where
  quiet : abortFrames log = []
  driven : ∃ asked, client₀.drive (call.responses log) = (client, asked, none) ∧
    match wait with
    | .request frame => frame = request ∧ log = [] ∧ asked = []
    | .response => sentFrames log = request :: asked
    | .next frame => ∃ earlier, asked = earlier ++ [frame] ∧ sentFrames log = request :: earlier

/-- How a transfer ends, and what has passed the transport by then. -/
inductive Ended (request : CanFrame) : List Passed → Except (DriverError E) R → Prop
  /-- The request was not taken. -/
  | unsent {error} (herror : error = .timeout ∨ ∃ e, error = .transport e) :
    Ended request [] (.error error)
  | settled {log client asked answer outcome} (hquiet : abortFrames log = [])
    (hdrive : client₀.drive (call.responses log) = (client, asked, some answer))
    (hsent : sentFrames log = request :: asked) (hturn : call.turn client answer = .settled outcome)
    (houtcome : outcome ≠ .error .protocolError) :
    Ended request log (outcome.mapError .sdo)
  | broken {log client asked answer} (hquiet : abortFrames log = [])
    (hdrive : client₀.drive (call.responses log) = (client, asked, some answer))
    (hsent : sentFrames log = request :: asked)
    (hturn : call.turn client answer = .broken .protocolError) :
    Ended request (log ++ [.abort (call.abortFrame .invalidCommandSpecifier)])
      (.error (.sdo .protocolError))
  /-- A frame of the server that is no SDO frame. -/
  | malformed {log client frame} (h : call.Underway client₀ request log client .response)
    (hframe : call.answered frame = true) (hdlc : frame.rawDlc ≠ 8) :
    Ended request (log ++ [.received frame] ++ [.abort (call.abortFrame .invalidCommandSpecifier)])
      (.error (.sdo .protocolError))
  | timeout {log client wait} (h : call.Underway client₀ request log client wait)
    (hwait : ∀ frame, wait ≠ .request frame) :
    Ended request (log ++ [.abort (call.abortFrame .sdoProtocolTimeout)]) (.error .timeout)
  | transport {log client wait} (h : call.Underway client₀ request log client wait)
    (hwait : ∀ frame, wait ≠ .request frame) (e : E) :
    Ended request log (.error (.transport e))

/-- What has passed the transport, for any state of a transfer. -/
def Reached (request : CanFrame) (log : List Passed) : DriverState E R → Prop
  | .waiting client wait _ => call.Underway client₀ request log client wait
  | .finished result => call.Ended client₀ request log result

end Call

section
variable {log log' : List Passed}

@[simp] theorem sentFrames_append : sentFrames (log ++ log') = sentFrames log ++ sentFrames log' :=
  List.filterMap_append

@[simp] theorem abortFrames_append :
    abortFrames (log ++ log') = abortFrames log ++ abortFrames log' :=
  List.filterMap_append

@[simp] theorem sentFrames_sent (frame : CanFrame) : sentFrames [.sent frame] = [frame] := rfl

@[simp] theorem sentFrames_received (frame : CanFrame) : sentFrames [.received frame] = [] := rfl

@[simp] theorem sentFrames_abort (frame : CanFrame) : sentFrames [.abort frame] = [] := rfl

@[simp] theorem abortFrames_sent (frame : CanFrame) : abortFrames [.sent frame] = [] := rfl

@[simp] theorem abortFrames_received (frame : CanFrame) : abortFrames [.received frame] = [] := rfl

@[simp] theorem abortFrames_abort (frame : CanFrame) : abortFrames [.abort frame] = [frame] := rfl

end

/-- The client goes on with one more response. -/
theorem drive_append {BUF : ℕ} {c client client' : SdoClient BUF} {front : List SdoFrame}
    {asked : List CanFrame} {response : SdoFrame} {result : SdoClientResult}
    (h : c.drive front = (client, asked, none))
    (hclient : client.processResponse response = (client', result)) :
    (∀ next, result = .sendNext next → c.drive (front ++ [response]) = (client', asked ++ [next], none)) ∧
    (result = .ignoredAbort → c.drive (front ++ [response]) = (client', asked, none)) ∧
    ((∀ next, result ≠ .sendNext next) → result ≠ .ignoredAbort →
      c.drive (front ++ [response]) = (client', asked, some result)) := by
  induction front generalizing c asked with
  | nil =>
    cases h
    rw [List.nil_append, SdoClient.drive, hclient]
    refine ⟨?_, ?_, ?_⟩
    · rintro next rfl
      rfl
    · rintro rfl
      rfl
    · intro hnext hignored
      cases result with
      | sendNext next => exact absurd rfl (hnext next)
      | ignoredAbort => exact absurd rfl hignored
      | _ => rfl
  | cons first rest ih =>
    rw [List.cons_append, SdoClient.drive]
    rw [SdoClient.drive] at h
    rcases hfirst : c.processResponse first with ⟨c', turn⟩
    rw [hfirst] at h
    cases turn with
    | sendNext frame =>
      rcases hrest : c'.drive rest with ⟨x, frames, o⟩
      dsimp only at h ⊢
      rw [hrest] at h
      cases h
      obtain ⟨hnext, hignored, hends⟩ := ih hrest
      refine ⟨?_, ?_, ?_⟩
      · intro next hresult
        rw [hnext next hresult]
        rfl
      · intro hresult
        rw [hignored hresult]
      · intro hr hi
        rw [hends hr hi]
    | ignoredAbort => exact ih h
    | uploadComplete | downloadComplete | aborted | error => cases h

namespace Call

variable {call : Call R} {client₀ : SdoClient SdoDriver.maxTransfer} {log log' : List Passed}
  {request : CanFrame}

@[simp] theorem responses_append :
    call.responses (log ++ log') = call.responses log ++ call.responses log' := by
  simp [responses]

@[simp] theorem responses_sent (frame : CanFrame) : call.responses [.sent frame] = [] := rfl

@[simp] theorem responses_abort (frame : CanFrame) : call.responses [.abort frame] = [] := rfl

theorem responses_received (frame : CanFrame) : call.responses [.received frame] =
    if call.answered frame && frame.rawDlc == 8 then [.ofData frame.data] else [] := by
  change ([frame].filter _).map _ = _
  rw [List.filter_singleton]
  cases call.answered frame && frame.rawDlc == 8 <;> rfl

theorem withDeadline_error {α : Type} {deadline : Option TransferDeadline} {entered : Bool} {w : Wake E}
    {answer : Poll (Except E α)} {error : DriverError E}
    (h : withDeadline deadline entered w answer = .ready (.error error)) :
    error = .timeout ∨ ∃ e, error = .transport e := by
  unfold withDeadline at h
  split at h
  · cases h
    exact .inl rfl
  · split at h
    · cases h
    · cases h
      exact .inr ⟨_, rfl⟩
    · split at h
      · cases h
        exact .inl rfl
      · cases h

theorem withDeadline_ok {α : Type} {deadline : Option TransferDeadline} {entered : Bool} {w : Wake E}
    {answer : Poll (Except E α)} {a : α} (h : withDeadline deadline entered w answer = .ready (.ok a)) :
    answer = .ready (.ok a) := by
  unfold withDeadline at h
  split at h
  · cases h
  · split at h
    · cases h
      rfl
    · cases h
    · split at h <;> cases h

theorem finish_received (error : DriverError E) :
    (call.finish error : DriverState E R × List Passed).2.filterMap Passed.received? = [] := by
  unfold finish
  cases abortCode error <;> rfl

/-- A frame that is handed out is the only one of its poll. -/
theorem onReceive_received (client : SdoClient SdoDriver.maxTransfer) (frame : CanFrame) :
    (call.onReceive client frame : DriverState E R × List Passed).2.filterMap Passed.received? = [] := by
  unfold onReceive
  split
  · rfl
  split
  · exact finish_received _
  unfold onResponse
  dsimp only
  split
  · rfl
  · rfl
  · rfl
  · exact finish_received _

theorem reached_finish {client : SdoClient SdoDriver.maxTransfer} {wait : Wait} {error : DriverError E}
    (h : call.Underway client₀ request log client wait) (hwait : ∀ frame, wait ≠ .request frame)
    (herror : error = .timeout ∨ ∃ e, error = .transport e) :
    call.Reached client₀ request (log ++ (call.finish error).2) (call.finish error).1 := by
  rcases herror with rfl | ⟨e, rfl⟩
  · exact .timeout h hwait
  · have hnone : (call.finish (.transport e)).2 = [] := rfl
    rw [hnone, List.append_nil]
    exact .transport h hwait e

theorem reached_onResponse {client : SdoClient SdoDriver.maxTransfer} {frame : CanFrame}
    (h : call.Underway client₀ request log client .response) (hframe : call.answered frame = true)
    (hdlc : frame.rawDlc = 8) {t : DriverState E R × List Passed} (ht : call.onResponse client frame = t) :
    call.Reached client₀ request (log ++ [.received frame] ++ t.2) t.1 := by
  obtain ⟨asked, hdrive, hsent⟩ := h.driven
  have hquiet : abortFrames (log ++ [.received frame]) = [] := by simp [h.quiet]
  have hresponses : call.responses (log ++ [.received frame]) =
      call.responses log ++ [.ofData frame.data] := by
    rw [responses_append, responses_received, hframe, hdlc]
    rfl
  have hsame : sentFrames (log ++ [.received frame]) = request :: asked := by simpa using hsent
  rcases hclient : client.processResponse (.ofData frame.data) with ⟨client', answer⟩
  obtain ⟨hnext, hignored, hends⟩ := drive_append hdrive hclient
  rw [← hresponses] at hnext hignored hends
  rw [onResponse, hclient] at ht
  subst ht
  dsimp only
  by_cases hgoes : ∃ next, answer = .sendNext next
  · obtain ⟨next, rfl⟩ := hgoes
    rw [call.turn_sendNext, List.append_nil]
    exact ⟨hquiet, _, hnext next rfl, _, rfl, hsame⟩
  by_cases hwaits : answer = .ignoredAbort
  · rw [hwaits, call.turn_ignoredAbort, List.append_nil]
    exact ⟨hquiet, _, hignored hwaits, hsame⟩
  have hover := hends (fun next hn => hgoes ⟨next, hn⟩) hwaits
  rcases call.turn_ends client' answer (fun next hn => hgoes ⟨next, hn⟩) hwaits with
    ⟨outcome, hturn, hknown⟩ | hturn
  · rw [hturn, List.append_nil]
    exact .settled hquiet hover hsame hturn hknown
  · rw [hturn]
    exact .broken hquiet hover hsame hturn

/-- A frame that is handed out. -/
theorem reached_onReceive {client : SdoClient SdoDriver.maxTransfer} {frame : CanFrame}
    (h : call.Underway client₀ request log client .response) {t : DriverState E R × List Passed}
    (ht : call.onReceive client frame = t) :
    call.Reached client₀ request (log ++ [.received frame] ++ t.2) t.1 := by
  subst ht
  unfold onReceive
  by_cases hframe : call.answered frame = true
  · rw [if_neg (not_not.mpr (beq_iff_eq.mp hframe))]
    by_cases hdlc : frame.rawDlc = 8
    · rw [if_neg (not_not.mpr hdlc)]
      exact reached_onResponse h hframe hdlc rfl
    · rw [if_pos hdlc]
      exact .malformed h hframe hdlc
  · have hid : frame.id ≠ call.driver.responseCob := fun heq => hframe (beq_iff_eq.mpr heq)
    obtain ⟨asked, hdrive, hsent⟩ := h.driven
    rw [if_pos hid, List.append_nil]
    refine ⟨by simp [h.quiet], asked, ?_, by simpa using hsent⟩
    rw [responses_append, responses_received, Bool.eq_false_iff.mpr hframe, Bool.false_and, if_neg (by simp),
      List.append_nil]
    exact hdrive

/-- One poll. -/
theorem reached_step {t t' : DriverState E R} {w : Wake E} (h : call.Reached client₀ request log t)
    (hstep : call.step t w = some t') : call.Reached client₀ request (log ++ call.passed t w) t' := by
  cases t with
  | finished result => cases hstep
  | waiting client wait entered =>
    cases hstep
    rw [passed]
    have hquiet := h.quiet
    obtain ⟨asked, hdrive, hwait⟩ := h.driven
    cases wait with
    | request frame =>
      obtain ⟨rfl, rfl, rfl⟩ := hwait
      simp only [poll]
      split
      · exact ⟨rfl, [], hdrive, rfl, rfl, rfl⟩
      · rename_i error herror
        exact .unsent (withDeadline_error herror)
      · exact ⟨rfl, [], hdrive, rfl⟩
    | response =>
      simp only [poll]
      split
      · exact (List.append_nil log).symm ▸ h
      · rename_i error herror
        exact reached_finish h (by simp) (withDeadline_error herror)
      · exact List.append_assoc log [_] _ ▸ reached_onReceive h rfl
    | next frame =>
      simp only [poll]
      split
      · exact (List.append_nil log).symm ▸ h
      · rename_i error herror
        exact reached_finish h (by simp) (withDeadline_error herror)
      · obtain ⟨earlier, rfl, hsent⟩ := hwait
        exact ⟨by simp [hquiet], _, by simpa using hdrive, by simp [hsent]⟩

theorem reached_run {t : DriverState E R} {entered : Bool} {wakes : List (Wake E)}
    (hrun : Runs.run call.step (.waiting client₀ (.request request) entered) wakes = some t) :
    call.Reached client₀ request
      (Runs.log call.step call.passed (.waiting client₀ (.request request) entered) wakes) t := by
  exact Runs.log_inv (call.Reached client₀ request) (fun _ _ _ _ => reached_step)
    ⟨rfl, [], rfl, rfl, rfl, rfl⟩ hrun

end Call

/-! ## Refinement -/

/-- A transfer against what the client alone makes of the responses: it has a result exactly
when the client has one, unless time or transport end it or a response is no SDO frame. -/
def Refines {S : Type} (call : Call R) (log : List Passed) (abstract : Option (Except SdoError S))
    (same : R → S → Prop) : DriverState E R → Prop
  | .waiting _ _ _ => abstract = none
  | .finished (.ok r) => ∃ s, abstract = some (.ok s) ∧ same r s
  | .finished (.error (.sdo error)) =>
    abstract = some (.error error) ∨
      error = .protocolError ∧
        ∃ frame, Passed.received frame ∈ log ∧ call.answered frame = true ∧ frame.rawDlc ≠ 8
  | .finished (.error (.transport _)) => abstract = none
  | .finished (.error .timeout) => abstract = none

theorem refines_of_reached {S : Type} {call : Call R} {client₀ : SdoClient SdoDriver.maxTransfer}
    {request : CanFrame} {log : List Passed} {t : DriverState E R} {same : R → S → Prop}
    {ending : SdoClient SdoDriver.maxTransfer → SdoClientResult → Except SdoError S}
    (h : call.Reached client₀ request log t)
    (hsettled : ∀ client answer outcome, call.turn client answer = .settled outcome →
      match outcome with
      | .ok r => ∃ s, ending client answer = .ok s ∧ same r s
      | .error error => ending client answer = .error error)
    (hbroken : ∀ client answer error, call.turn client answer = .broken error →
      ending client answer = .error error) :
    Refines call log ((client₀.drive (call.responses log)).2.2.map
      (ending (client₀.drive (call.responses log)).1)) same t := by
  cases t with
  | waiting client wait entered =>
    obtain ⟨asked, hdrive, -⟩ := h.driven
    rw [hdrive]
    rfl
  | finished result =>
    cases h with
    | unsent herror => rcases herror with rfl | ⟨e, rfl⟩ <;> rfl
    | settled hquiet hdrive hsent hturn hknown =>
      rename_i client asked answer outcome
      have hend := hsettled client answer outcome hturn
      rw [hdrive]
      cases outcome with
      | ok r =>
        obtain ⟨s, hs, hsame⟩ := hend
        exact ⟨s, congrArg some hs, hsame⟩
      | error error => exact .inl (congrArg some hend)
    | broken _ hdrive _ hturn =>
      rw [Call.responses_append, Call.responses_abort, List.append_nil, hdrive]
      exact .inl (congrArg some (hbroken _ _ _ hturn))
    | malformed _ hframe hdlc => exact .inr ⟨rfl, _, by simp, hframe, hdlc⟩
    | timeout hunder =>
      obtain ⟨asked, hdrive, -⟩ := hunder.driven
      rw [Call.responses_append, Call.responses_abort, List.append_nil, hdrive]
      rfl
    | transport hunder =>
      obtain ⟨asked, hdrive, -⟩ := hunder.driven
      rw [hdrive]
      rfl

/-- The bytes of an upload stand at the front of the caller's buffer. -/
def SameUpload (buf : List UInt8) (r : Uploaded) (s : List UInt8 × Bool) : Prop :=
  r.buf = s.1 ++ buf.drop r.len ∧ r.sizeIndicated = s.2

/-- The result of a client-level upload from the last result of its client. -/
def uploadEnding (bufLen : ℕ) (client : SdoClient SdoDriver.maxTransfer) :
    SdoClientResult → Except SdoError (List UInt8 × Bool)
  | .uploadComplete dataLen =>
    if bufLen < dataLen then .error .tooLarge
    else .ok (client.data.take dataLen, client.uploadSizeIndicated)
  | .aborted code => .error (.aborted code)
  | .downloadComplete | .sendNext _ | .ignoredAbort | .error => .error .protocolError

def downloadEnding (_ : SdoClient SdoDriver.maxTransfer) : SdoClientResult → Except SdoError Unit
  | .downloadComplete => .ok ()
  | .aborted code => .error (.aborted code)
  | .uploadComplete _ | .sendNext _ | .ignoredAbort | .error => .error .protocolError

def uploadClient (target : NodeId) (index : UInt16) (subindex : UInt8) : SdoClient SdoDriver.maxTransfer :=
  ((SdoClient.new target).startUpload index subindex).1

theorem upload_eq (target : NodeId) (index : UInt16) (subindex : UInt8) (bufLen : ℕ)
    (responses : List SdoFrame) :
    SdoDriver.upload target index subindex bufLen responses =
      ((uploadClient target index subindex).drive responses).2.2.map
        (uploadEnding bufLen ((uploadClient target index subindex).drive responses).1) := by
  rw [SdoDriver.upload]
  change Option.map _ ((uploadClient target index subindex).drive responses).2.2 = _
  cases ((uploadClient target index subindex).drive responses).2.2 with
  | none => rfl
  | some result => cases result <;> rfl

theorem download_eq {target : NodeId} {index : UInt16} {subindex : UInt8} {data : List UInt8}
    {client : SdoClient SdoDriver.maxTransfer} {request : CanFrame}
    (h : (SdoClient.new target).startDownload index subindex data = (client, some request))
    (responses : List SdoFrame) :
    SdoDriver.download target index subindex data responses =
      (client.drive responses).2.2.map (downloadEnding (client.drive responses).1) := by
  rw [SdoDriver.download, h]
  change Option.map _ (client.drive responses).2.2 = _
  cases (client.drive responses).2.2 with
  | none => rfl
  | some result => cases result <;> rfl

/-- The driver refines the client-level upload and download, whatever the transport and the
clock do: frames of others, delays and the order of polls do not show in the result. -/
theorem driver_refines_client (target : NodeId) (index : UInt16) (subindex : UInt8)
    (deadline : Option TransferDeadline) (wakes : List (Wake E)) :
    let d : SdoDriver := ⟨target⟩
    (∀ buf t, Runs.run (d.uploadCall index subindex buf deadline).step (d.startUpload index subindex)
        wakes = some t →
      let call := d.uploadCall index subindex buf deadline
      let log := Runs.log call.step call.passed (d.startUpload index subindex : DriverState E Uploaded) wakes
      Refines call log (SdoDriver.upload target index subindex buf.length (call.responses log))
        (SameUpload buf) t) ∧
    ∀ data t, Runs.run (d.downloadCall index subindex deadline).step (d.startDownload index subindex data)
        wakes = some t →
      let call := d.downloadCall index subindex deadline
      let log := Runs.log call.step call.passed (d.startDownload index subindex data : DriverState E Unit)
        wakes
      Refines call log (SdoDriver.download target index subindex data (call.responses log))
        (fun _ _ => True) t := by
  intro d
  refine ⟨fun buf t hrun => ?_, fun data t hrun => ?_⟩
  · have hreached := Call.reached_run hrun
    intro call log
    rw [upload_eq]
    refine refines_of_reached hreached ?_ ?_
    · intro client answer outcome hturn
      change uploadTurn buf client answer = _ at hturn
      cases answer with
      | uploadComplete dataLen =>
        simp only [uploadTurn] at hturn
        by_cases hlen : buf.length < dataLen
        · rw [if_pos hlen] at hturn
          cases hturn
          exact if_pos hlen
        · rw [if_neg hlen] at hturn
          cases hturn
          exact ⟨_, if_neg hlen, rfl, rfl⟩
      | aborted code =>
        cases hturn
        rfl
      | downloadComplete | sendNext | ignoredAbort | error => cases hturn
    · intro client answer error hturn
      change uploadTurn buf client answer = _ at hturn
      cases answer with
      | uploadComplete dataLen =>
        simp only [uploadTurn] at hturn
        split at hturn <;> cases hturn
      | downloadComplete | error =>
        cases hturn
        rfl
      | sendNext | aborted | ignoredAbort => cases hturn
  · unfold SdoDriver.startDownload at hrun ⊢
    rcases hstart : (SdoClient.new d.target).startDownload index subindex data with ⟨client, _ | request⟩
    · rw [hstart] at hrun
      cases wakes with
      | nil =>
        cases hrun
        have habstract : SdoDriver.download target index subindex data [] = some (.error .tooLarge) := by
          rw [SdoDriver.download, hstart]
        exact .inl habstract
      | cons w wakes =>
        obtain ⟨_, hstep, -⟩ := Runs.run_cons.mp hrun
        cases hstep
    · rw [hstart] at hrun
      have hreached := Call.reached_run hrun
      intro call log
      rw [download_eq hstart]
      refine refines_of_reached hreached ?_ ?_
      · intro client answer outcome hturn
        cases answer <;> cases hturn
        · exact ⟨(), rfl, trivial⟩
        · rfl
      · intro client answer error hturn
        cases answer <;> cases hturn <;> rfl

section

def lastNode : NodeId := (NodeId.new 127).get (Eq.refl true)

/-- A poll at a time at which nothing happens. -/
def quietWake (now : UInt64) : Wake Unit := ⟨now, now, .pending, .pending, false, .pending⟩

/-- A request that goes out, a heartbeat that is passed over, and an expedited answer. -/
def uploadWakes : List (Wake Unit) :=
  [{ quietWake 0 with transmit := .ready (.ok ()) },
    { quietWake 5 with receive := .ready (.ok (.literal 0x701 [0x05])) },
    { quietWake 9 with receive := .ready (.ok (.literal 0x5FF [0x43, 0, 0x10, 0, 0x91, 0x01, 0, 0])) }]

theorem driver_refines_client_sample :
    let d : SdoDriver := ⟨lastNode⟩
    let call := d.uploadCall 0x1000 0 [0xFF, 0xFF, 0xFF, 0xFF, 0xFF] none
    let log := Runs.log call.step call.passed (d.startUpload 0x1000 0) uploadWakes
    Runs.run call.step (d.startUpload 0x1000 0) uploadWakes =
      some (.finished (.ok ⟨[0x91, 0x01, 0, 0, 0xFF], 4, true⟩)) ∧
    ∃ s, SdoDriver.upload lastNode 0x1000 0 5 (call.responses log) = some (.ok s) ∧
      SameUpload [0xFF, 0xFF, 0xFF, 0xFF, 0xFF] ⟨[0x91, 0x01, 0, 0, 0xFF], 4, true⟩ s :=
  ⟨rfl, (driver_refines_client lastNode 0x1000 0 none uploadWakes).1 [0xFF, 0xFF, 0xFF, 0xFF, 0xFF]
    (.finished (.ok ⟨[0x91, 0x01, 0, 0, 0xFF], 4, true⟩)) rfl⟩

end

/-! ## What is sent -/

def resultAbort : Except (DriverError E) R → Option AbortCode
  | .ok _ => none
  | .error error => abortCode error

/-- Behind the request, what is sent is a beginning of what the client asked for, and starts
with the request. -/
theorem sentFrames_of_underway {call : Call R} {client₀ client : SdoClient SdoDriver.maxTransfer}
    {request : CanFrame} {log : List Passed} {wait : Wait}
    (h : call.Underway client₀ request log client wait) (hwait : ∀ frame, wait ≠ .request frame) :
    sentFrames log ≠ [] ∧ sentFrames log <+: request :: (client₀.drive (call.responses log)).2.1 := by
  obtain ⟨asked, hdrive, hsent⟩ := h.driven
  rw [hdrive]
  cases wait with
  | request frame => exact absurd rfl (hwait frame)
  | response =>
    dsimp only at hsent
    rw [hsent]
    exact ⟨List.cons_ne_nil _ _, List.prefix_rfl⟩
  | next frame =>
    obtain ⟨earlier, rfl, hsent⟩ := hsent
    rw [hsent]
    exact ⟨List.cons_ne_nil _ _, ⟨[frame], rfl⟩⟩

/-- What a finished transfer has put on the transport. The frames taken are those the client
asked for, in order. One abort stands at the end exactly if the transfer broke off after its
request was taken: by a protocol error or by its deadline. -/
theorem sends_and_aborts {call : Call R} {client₀ : SdoClient SdoDriver.maxTransfer} {request : CanFrame}
    {entered : Bool} {wakes : List (Wake E)} {result : Except (DriverError E) R}
    (hrun : Runs.run call.step (.waiting client₀ (.request request) entered) wakes =
      some (.finished result)) :
    let log := Runs.log call.step call.passed (.waiting client₀ (.request request) entered) wakes
    (∃ front, log = front ++ (abortFrames log).map .abort ∧ abortFrames front = []) ∧
    abortFrames log =
      (if sentFrames log = [] then [] else (resultAbort result).toList.map call.abortFrame) ∧
    sentFrames log <+: request :: (client₀.drive (call.responses log)).2.1 ∧
    ((∀ e, result ≠ .error (.transport e)) → result ≠ .error .timeout →
      sentFrames log = request :: (client₀.drive (call.responses log)).2.1) := by
  intro log
  have hended : call.Ended client₀ request log result := Call.reached_run hrun
  generalize log = log at hended
  cases hended with
  | unsent herror =>
    refine ⟨⟨[], rfl, rfl⟩, rfl, List.nil_prefix, fun htransport htimeout => ?_⟩
    rcases herror with rfl | ⟨e, rfl⟩
    · exact absurd rfl htimeout
    · exact absurd rfl (htransport e)
  | settled hquiet hdrive hsent hturn hknown =>
    rename_i client asked answer outcome
    have hnone : resultAbort (outcome.mapError DriverError.sdo : Except (DriverError E) R) = none := by
      cases outcome with
      | ok r => rfl
      | error error =>
        cases error with
        | protocolError => exact absurd rfl hknown
        | aborted | tooLarge => rfl
    rw [hquiet, hsent, hdrive, hnone]
    refine ⟨⟨log, (List.append_nil log).symm, hquiet⟩, ?_, List.prefix_rfl, fun _ _ => rfl⟩
    rw [if_neg (List.cons_ne_nil _ _)]
    rfl
  | broken hquiet hdrive hsent hturn =>
    rename_i front client asked answer
    have hresponses : call.responses (front ++ [.abort (call.abortFrame .invalidCommandSpecifier)]) =
        call.responses front := by simp
    rw [sentFrames_append, sentFrames_abort, List.append_nil, abortFrames_append, hquiet, hsent, hresponses,
      hdrive]
    refine ⟨⟨front, rfl, hquiet⟩, ?_, List.prefix_rfl, fun _ _ => rfl⟩
    rw [if_neg (List.cons_ne_nil _ _)]
    rfl
  | malformed hunder hframe hdlc =>
    rename_i front client frame
    have hresponses : call.responses (front ++ [.received frame] ++
        [.abort (call.abortFrame .invalidCommandSpecifier)]) = call.responses front := by
      rw [Call.responses_append, Call.responses_append, Call.responses_received, Call.responses_abort,
        beq_eq_false_iff_ne.mpr hdlc, Bool.and_false, if_neg Bool.false_ne_true, List.append_nil,
        List.append_nil]
    obtain ⟨asked, hdrive, hsent⟩ := hunder.driven
    dsimp only at hsent
    have hquiet : abortFrames (front ++ [.received frame]) = [] := by simp [hunder.quiet]
    rw [sentFrames_append, sentFrames_append, sentFrames_received, sentFrames_abort, List.append_nil,
      List.append_nil, abortFrames_append, hquiet, hsent, hresponses, hdrive]
    refine ⟨⟨_, rfl, hquiet⟩, ?_, List.prefix_rfl, fun _ _ => rfl⟩
    rw [if_neg (List.cons_ne_nil _ _)]
    rfl
  | timeout hunder hwait =>
    rename_i front client wait
    have hresponses : call.responses (front ++ [.abort (call.abortFrame .sdoProtocolTimeout)]) =
        call.responses front := by simp
    obtain ⟨hne, hprefix⟩ := sentFrames_of_underway hunder hwait
    rw [sentFrames_append, sentFrames_abort, List.append_nil, abortFrames_append, hunder.quiet, hresponses]
    refine ⟨⟨front, rfl, hunder.quiet⟩, ?_, hprefix, fun _ h => absurd rfl h⟩
    rw [if_neg hne]
    rfl
  | transport hunder hwait e =>
    obtain ⟨hne, hprefix⟩ := sentFrames_of_underway hunder hwait
    rw [hunder.quiet]
    refine ⟨⟨log, (List.append_nil log).symm, hunder.quiet⟩, ?_, hprefix, fun h => absurd rfl (h e)⟩
    rw [if_neg hne]
    rfl

/-- A request that is never answered. -/
theorem sends_and_aborts_sample :
    let call := (⟨lastNode⟩ : SdoDriver).uploadCall 0x1000 0 [] (some ⟨0, 100⟩)
    let start : DriverState Unit Uploaded := (⟨lastNode⟩ : SdoDriver).startUpload 0x1000 0
    let wakes := [{ quietWake 0 with transmit := .ready (.ok ()) }, quietWake 50, quietWake 100]
    Runs.run call.step start wakes = some (.finished (.error .timeout)) ∧
      abortFrames (Runs.log call.step call.passed start wakes) =
        [call.abortFrame .sdoProtocolTimeout] := by
  have hrun : Runs.run ((⟨lastNode⟩ : SdoDriver).uploadCall 0x1000 0 [] (some ⟨0, 100⟩)).step
      ((⟨lastNode⟩ : SdoDriver).startUpload 0x1000 0)
      [{ quietWake 0 with transmit := .ready (.ok ()) }, quietWake 50, quietWake 100] =
      some (.finished (.error .timeout)) := rfl
  exact ⟨hrun, (sends_and_aborts hrun).2.1.trans rfl⟩

/-! ## Deadlines -/

theorem expired_of_elapsed {deadline : TransferDeadline} {entered : Bool} {w : Wake E}
    (h : deadline.timeoutUs ≤ w.now - deadline.started) : expired (some deadline) entered w = true := by
  have hzero := TransferDeadline.remaining_eq_zero_iff.mpr h
  simp [expired, hzero]

theorem in_time_of_not_expired {deadline : TransferDeadline} {entered : Bool} {w : Wake E}
    (h : expired (some deadline) entered w = false) :
    w.now - deadline.started < deadline.timeoutUs := by
  by_contra hlate
  rw [expired_of_elapsed (UInt64.not_lt.mp hlate)] at h
  cases h

namespace Call

variable {call : Call R}

theorem poll_expired {client : SdoClient SdoDriver.maxTransfer} {wait : Wait} {entered : Bool} {w : Wake E}
    (h : expired call.deadline entered w = true) :
    (call.poll client wait entered w).1 = .finished (.error .timeout) := by
  have hlate (α : Type) (answer : Poll (Except E α)) :
      withDeadline call.deadline entered w answer = .ready (.error .timeout) := if_pos h
  cases wait with
  | request frame => simp only [poll, hlate]
  | response =>
    simp only [poll, hlate]
    rfl
  | next frame =>
    simp only [poll, hlate]
    rfl

theorem withDeadline_none {entered : Bool} {w : Wake E} {α : Type} (answer : Poll (Except E α)) :
    withDeadline none entered w answer ≠ .ready (.error .timeout) := by
  rcases answer with _ | ⟨_ | _⟩ <;> simp [withDeadline, expired]

theorem onReceive_ne_timeout (client : SdoClient SdoDriver.maxTransfer) (frame : CanFrame) :
    (call.onReceive client frame).1 ≠ (.finished (.error .timeout) : DriverState E R) := by
  unfold onReceive
  split
  · simp
  split
  · simp [finish]
  · unfold onResponse
    rcases client.processResponse (.ofData frame.data) with ⟨client', result⟩
    dsimp only
    split
    · simp
    · simp
    · rename_i outcome _
      rcases outcome with _ | _ <;> simp [Except.mapError]
    · simp [finish]

theorem poll_ne_timeout (h : call.deadline = none) (client : SdoClient SdoDriver.maxTransfer) (wait : Wait)
    (entered : Bool) (w : Wake E) : (call.poll client wait entered w).1 ≠ .finished (.error .timeout) := by
  have hnone (α : Type) (answer : Poll (Except E α)) :
      withDeadline call.deadline entered w answer ≠ .ready (.error .timeout) := by
    rw [h]
    exact withDeadline_none answer
  cases wait with
  | request frame | next frame =>
    simp only [poll]
    split
    · simp
    · rename_i error herror
      have hne : error ≠ .timeout := fun htimeout => hnone _ _ (htimeout ▸ herror)
      simpa [finish] using hne
    · simp
  | response =>
    simp only [poll]
    split
    · simp
    · rename_i error herror
      have hne : error ≠ .timeout := fun htimeout => hnone _ _ (htimeout ▸ herror)
      simpa [finish] using hne
    · exact onReceive_ne_timeout _ _

theorem polled_in_time {d : TransferDeadline} (hd : call.deadline = some d) (t : DriverState E R)
    (w : Wake E) : ∀ now ∈ call.polled t w, now - d.started < d.timeoutUs := by
  cases t with
  | finished result => exact List.forall_mem_nil _
  | waiting client wait entered =>
    rw [polled, hd]
    by_cases hexpired : expired (some d) entered w = true
    · rw [if_pos hexpired]
      exact List.forall_mem_nil _
    · rw [if_neg hexpired]
      exact List.forall_mem_singleton.mpr (in_time_of_not_expired (Bool.eq_false_iff.mpr hexpired))

/-- A transfer that waits has seen no late poll. -/
theorem waiting_in_time {d : TransferDeadline} (hd : call.deadline = some d) {t₀ : DriverState E R}
    {wakes : List (Wake E)} {client : SdoClient SdoDriver.maxTransfer} {wait : Wait} {entered : Bool}
    (hrun : Runs.run call.step t₀ wakes = some (.waiting client wait entered)) :
    ∀ w ∈ wakes, w.now - d.started < d.timeoutUs := by
  induction wakes generalizing t₀ with
  | nil => exact List.forall_mem_nil _
  | cons w wakes ih =>
    obtain ⟨t₁, hstep, hrest⟩ := Runs.run_cons.mp hrun
    refine List.forall_mem_cons.mpr ⟨?_, ih hrest⟩
    by_contra hlate
    cases t₀ with
    | finished result => cases hstep
    | waiting client₀ wait₀ entered₀ =>
      cases hstep
      rw [poll_expired (hd ▸ expired_of_elapsed (UInt64.not_lt.mp hlate))] at hrest
      cases wakes with
      | nil => cases hrest
      | cons w' wakes =>
        obtain ⟨_, hstep, -⟩ := Runs.run_cons.mp hrest
        cases hstep

end Call

/-- One budget bounds a whole transfer, however many segments it takes and however much other
traffic it passes over: the transport is used in time only, a transfer that is still waiting
has seen no late poll, and the next late poll ends it. Without a deadline time ends nothing. -/
theorem deadline_bounds_transfer {call : Call R} {client₀ : SdoClient SdoDriver.maxTransfer} {wait₀ : Wait}
    {wakes : List (Wake E)} {t : DriverState E R}
    (hrun : Runs.run call.step (.waiting client₀ wait₀ false) wakes = some t) :
    (∀ d, call.deadline = some d →
      (∀ now ∈ Runs.log call.step call.polled (.waiting client₀ wait₀ false) wakes,
        now - d.started < d.timeoutUs) ∧
      ∀ client wait entered, t = .waiting client wait entered →
        (∀ w ∈ wakes, w.now - d.started < d.timeoutUs) ∧
        ∀ w, d.timeoutUs ≤ w.now - d.started ∨ entered = false ∧ d.timeoutUs ≤ w.entered - d.started →
          call.step t w = some (.finished (.error .timeout))) ∧
    (call.deadline = none → t ≠ .finished (.error .timeout)) := by
  refine ⟨fun d hd => ⟨?_, ?_⟩, fun hnone => ?_⟩
  · refine Runs.log_inv (fun past _ => ∀ now ∈ past, now - d.started < d.timeoutUs) ?_
      (List.forall_mem_nil _) hrun
    intro past s w s' hpast _ now hnow
    rcases List.mem_append.mp hnow with hnow | hnow
    · exact hpast now hnow
    · exact Call.polled_in_time hd s w now hnow
  · rintro client wait entered rfl
    refine ⟨Call.waiting_in_time hd hrun, fun w hlate => congrArg some (Call.poll_expired ?_)⟩
    rw [hd]
    rcases hlate with hlate | ⟨rfl, hlate⟩
    · exact expired_of_elapsed hlate
    · simp [expired, TransferDeadline.remaining_eq_zero_iff.mpr hlate]
  · refine @Runs.log_inv _ _ _ call.step call.passed _ _ _
      (fun _ t => t ≠ .finished (.error .timeout)) ?_ (by simp) hrun
    intro past s w s' _ hstep
    cases s with
    | finished result => cases hstep
    | waiting client wait entered =>
      cases hstep
      exact Call.poll_ne_timeout hnone client wait entered w

/-- The clock wraps between the request and the late poll. -/
theorem deadline_bounds_transfer_sample :
    let d : TransferDeadline := ⟨0xFFFFFFFFFFFFFFF0, 100⟩
    let call := (⟨lastNode⟩ : SdoDriver).uploadCall 0x1000 0 [] (some d)
    let start : DriverState Unit Uploaded := (⟨lastNode⟩ : SdoDriver).startUpload 0x1000 0
    ∃ t, Runs.run call.step start [quietWake 0xFFFFFFFFFFFFFFF8, quietWake 3] = some t ∧
      call.step t (quietWake 84) = some (.finished (.error .timeout)) := by
  have hrun := Eq.refl (Runs.run ((⟨lastNode⟩ : SdoDriver).uploadCall 0x1000 0 []
    (some ⟨0xFFFFFFFFFFFFFFF0, 100⟩)).step ((⟨lastNode⟩ : SdoDriver).startUpload 0x1000 0)
    [quietWake 0xFFFFFFFFFFFFFFF8, quietWake 3])
  obtain ⟨-, hlate⟩ := (deadline_bounds_transfer hrun).1 ⟨0xFFFFFFFFFFFFFFF0, 100⟩ rfl
  exact ⟨_, hrun, (hlate _ _ _ rfl).2 (quietWake 84) (.inl (by decide))⟩

end
end Canopen.Sdo
