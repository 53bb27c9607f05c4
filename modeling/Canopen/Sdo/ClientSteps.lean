import Canopen.Sdo.Client

/-!
# What one response can do

`ClientStep` lists everything a client makes of a response. A client waits for one kind of
response; an abort for another object leaves it as it is, and everything else ends the
transfer. Properties of whole transfers follow from this case distinction.
-/

namespace Canopen.Sdo

/-- An abort for another object than the given one, and not for the whole channel. -/
def isForeignAbort (object : UInt16 × UInt8) (response : SdoFrame) : Bool :=
  commandSpecifier response.b0 == Scs.abortTransfer.toByte && parseIndexSub response != (0, 0) &&
    parseIndexSub response != object

theorem isForeignAbort_eq {object : UInt16 × UInt8} {response : SdoFrame}
    (h : commandSpecifier response.b0 = Scs.abortTransfer.toByte) :
    isForeignAbort object response =
      (!decide ((parseIndexSub response).1 = 0 ∧ (parseIndexSub response).2 = 0) &&
        ((parseIndexSub response).1, (parseIndexSub response).2) != object) := by
  have hzero : (parseIndexSub response != (0, 0)) =
      !decide ((parseIndexSub response).1 = 0 ∧ (parseIndexSub response).2 = 0) := by
    rw [bne, Bool.not_inj_iff, Bool.eq_iff_iff, beq_iff_eq, decide_eq_true_iff, Prod.ext_iff]
  unfold isForeignAbort
  rw [h, beq_self_eq_true, Bool.true_and, hzero]

/-- The answer to an upload request carries the object itself. -/
def isExpedited (response : SdoFrame) : Bool := (response.b0 &&& 0x02) != 0

def indicatesSize (response : SdoFrame) : Bool := (response.b0 &&& 0x01) != 0

/-- The number of bytes an expedited answer carries. -/
def expeditedSize (response : SdoFrame) : ℕ :=
  4 - if indicatesSize response then ((response.b0 >>> 2) &&& 0x03).toNat else 0

def announcedSize (response : SdoFrame) : Option ℕ :=
  if indicatesSize response then some response.size.toNat else none

/-- The number of bytes a segment carries. -/
def segmentSize (response : SdoFrame) : ℕ := 7 - unusedBytes response.b0

namespace SdoClient

variable {BUF : ℕ}

/-- The response the client waits for, within the bounds of its transfer. -/
def Expects (c : SdoClient BUF) (response : SdoFrame) : Prop :=
  match c.state with
  | .idle => False
  | .waitingUploadInitResponse index subindex =>
    answers response .initiateUploadResponse index subindex = true ∧
      (if isExpedited response then expeditedSize response ≤ BUF
        else ∀ len, announcedSize response = some len → len ≤ BUF)
  | .uploadSegmented _ _ toggle =>
    commandSpecifier response.b0 = Scs.uploadSegmentResponse.toByte ∧
      toggleBit response.b0 = toggle ∧ c.offset + segmentSize response ≤ BUF ∧
      ∀ len, c.uploadLen = some len → c.offset + segmentSize response ≤ len ∧
        (lastBit response.b0 = true → c.offset + segmentSize response = len)
  | .waitingDownloadInitResponse index subindex =>
    answers response .initiateDownloadResponse index subindex = true
  | .downloadSegmented _ _ toggle =>
    commandSpecifier response.b0 = Scs.downloadSegmentResponse.toByte ∧
      toggleBit response.b0 = toggle

/-- An upload in segments has begun. -/
def opened (c : SdoClient BUF) (index : UInt16) (subindex : UInt8) (response : SdoFrame) :
    SdoClient BUF :=
  { c with
    uploadLen := announcedSize response
    uploadSizeIndicated := indicatesSize response
    state := .uploadSegmented index subindex false
    offset := 0 }

def stored (c : SdoClient BUF) (response : SdoFrame) : SdoClient BUF :=
  { c with
    buf := c.buf.write c.offset (response.payload.take (segmentSize response))
    offset := c.offset + segmentSize response }

/-- A segment has been sent. -/
def advanced (c : SdoClient BUF) : SdoClient BUF :=
  { c with offset := c.offset + min (c.totalLen - c.offset) 7 }

/-- Everything a response can do. -/
inductive ClientStep (c : SdoClient BUF) (response : SdoFrame) :
    SdoClient BUF → SdoClientResult → Prop
  | ignored {object : UInt16 × UInt8} (active : c.state.active = some object)
      (foreign : isForeignAbort object response = true) : ClientStep c response c .ignoredAbort
  | aborted (service : commandSpecifier response.b0 = Scs.abortTransfer.toByte)
      (own : ∀ object, c.state.active = some object → isForeignAbort object response = false) :
      ClientStep c response { c with state := .idle } (.aborted ⟨response.size⟩)
  | failed {c' : SdoClient BUF} (service : commandSpecifier response.b0 ≠ Scs.abortTransfer.toByte)
      (unexpected : ¬c.Expects response) (idle : c'.state = .idle) (offset : c'.offset = c.offset) :
      ClientStep c response c' .error
  | expedited {index : UInt16} {subindex : UInt8}
      (state : c.state = .waitingUploadInitResponse index subindex) (expected : c.Expects response)
      (carries : isExpedited response = true) :
      ClientStep c response
        { c with
          buf := c.buf.write 0 (response.value.take (expeditedSize response))
          offset := expeditedSize response
          uploadSizeIndicated := indicatesSize response
          state := .idle } (.uploadComplete (expeditedSize response))
  | opening {index : UInt16} {subindex : UInt8} {frame : CanFrame}
      (state : c.state = .waitingUploadInitResponse index subindex) (expected : c.Expects response)
      (segmented : isExpedited response = false) :
      ClientStep c response (c.opened index subindex response) (.sendNext frame)
  | segment {index : UInt16} {subindex : UInt8} {toggle : Bool} {frame : CanFrame}
      (state : c.state = .uploadSegmented index subindex toggle) (expected : c.Expects response)
      (more : lastBit response.b0 = false) :
      ClientStep c response { c.stored response with state := .uploadSegmented index subindex (!toggle) }
        (.sendNext frame)
  | lastSegment {index : UInt16} {subindex : UInt8} {toggle : Bool}
      (state : c.state = .uploadSegmented index subindex toggle) (expected : c.Expects response)
      (last : lastBit response.b0 = true) :
      ClientStep c response { c.stored response with state := .idle }
        (.uploadComplete (c.offset + segmentSize response))
  | written {index : UInt16} {subindex : UInt8}
      (state : c.state = .waitingDownloadInitResponse index subindex)
      (expected : c.Expects response) (short : 0 < c.totalLen ∧ c.totalLen ≤ 4) :
      ClientStep c response { c with state := .idle } .downloadComplete
  | sending {index : UInt16} {subindex : UInt8} {frame : CanFrame}
      (state : c.state = .waitingDownloadInitResponse index subindex)
      (expected : c.Expects response) (long : ¬(0 < c.totalLen ∧ c.totalLen ≤ 4)) :
      ClientStep c response { c.advanced with state := .downloadSegmented index subindex false }
        (.sendNext frame)
  | sent {index : UInt16} {subindex : UInt8} {toggle : Bool}
      (state : c.state = .downloadSegmented index subindex toggle) (expected : c.Expects response)
      (all : c.totalLen ≤ c.offset) :
      ClientStep c response { c with state := .idle } .downloadComplete
  | sendingOn {index : UInt16} {subindex : UInt8} {toggle : Bool} {frame : CanFrame}
      (state : c.state = .downloadSegmented index subindex toggle) (expected : c.Expects response)
      (more : c.offset < c.totalLen) :
      ClientStep c response { c.advanced with state := .downloadSegmented index subindex (!toggle) }
        (.sendNext frame)

variable {c c' : SdoClient BUF} {response : SdoFrame} {result : SdoClientResult}

theorem handleAbort_cases (c : SdoClient BUF)
    (service : commandSpecifier response.b0 = Scs.abortTransfer.toByte) :
    ClientStep c response (c.handleAbort response).1 (c.handleAbort response).2 := by
  unfold handleAbort
  dsimp only
  split_ifs with hforeign
  · obtain ⟨object, hactive, hother⟩ := (Option.any_eq_true _ _).mp hforeign
    refine .ignored hactive ?_
    rw [isForeignAbort_eq service]
    exact hother
  · refine .aborted service fun object hactive => ?_
    rw [isForeignAbort_eq service, Bool.eq_false_iff]
    simpa only [hactive, Option.any_some] using hforeign

theorem handleUploadInitResponse_cases {index : UInt16} {subindex : UInt8}
    (service : commandSpecifier response.b0 ≠ Scs.abortTransfer.toByte)
    (state : c.state = .waitingUploadInitResponse index subindex)
    (answer : answers response .initiateUploadResponse index subindex = true) :
    ClientStep c response (c.handleUploadInitResponse index subindex response).1
      (c.handleUploadInitResponse index subindex response).2 := by
  have hsize : 4 - (if (response.b0 &&& 0x01) != 0 then ((response.b0 >>> 2) &&& 0x03).toNat else 0) =
      expeditedSize response := rfl
  have hcarries : ((response.b0 &&& 0x02) != 0) = isExpedited response := rfl
  have hannounced : (if (response.b0 &&& 0x01) != 0 then some response.size.toNat else none) =
      announcedSize response := rfl
  unfold handleUploadInitResponse
  dsimp only
  rw [hsize, hannounced, hcarries]
  by_cases hexpedited : isExpedited response = true
  · rw [if_pos hexpedited]
    by_cases hfits : BUF < expeditedSize response
    · rw [if_pos hfits]
      refine .failed service ?_ rfl rfl
      simp [Expects, state, hexpedited, hfits]
    · rw [if_neg hfits]
      refine .expedited state ?_ hexpedited
      simp only [Expects, state, answer, hexpedited, if_true, true_and]
      exact Nat.le_of_not_lt hfits
  · rw [if_neg hexpedited]
    by_cases hfits : (announcedSize response).any (BUF < ·) = true
    · rw [if_pos hfits]
      refine .failed service ?_ rfl rfl
      obtain ⟨len, hlen, hlarge⟩ := (Option.any_eq_true _ _).mp hfits
      simp only [Expects, state, hexpedited]
      rintro ⟨-, hall⟩
      have hle := hall len hlen
      simp only [decide_eq_true_eq] at hlarge
      omega
    · rw [if_neg hfits]
      refine .opening state ?_ (by simpa using hexpedited)
      simp only [Expects, state, answer, hexpedited, true_and]
      intro len hlen
      simpa [hlen] using hfits

theorem handleUploadSegmentResponse_cases {index : UInt16} {subindex : UInt8} {toggle : Bool}
    (service : commandSpecifier response.b0 = Scs.uploadSegmentResponse.toByte)
    (state : c.state = .uploadSegmented index subindex toggle) :
    ClientStep c response (c.handleUploadSegmentResponse index subindex toggle response).1
      (c.handleUploadSegmentResponse index subindex toggle response).2 := by
  have habort : commandSpecifier response.b0 ≠ Scs.abortTransfer.toByte := by
    rw [service]
    decide
  have hsize : 7 - unusedBytes response.b0 = segmentSize response := rfl
  unfold handleUploadSegmentResponse
  dsimp only
  rw [hsize]
  by_cases htoggle : toggleBit response.b0 ≠ toggle
  · rw [if_pos htoggle]
    refine .failed habort ?_ rfl rfl
    simp [Expects, state, htoggle]
  rw [if_neg htoggle, not_not] at *
  by_cases hfits : BUF < c.offset + segmentSize response ∨ c.uploadLen.any (fun len =>
      len < c.offset + segmentSize response ||
        (lastBit response.b0 && c.offset + segmentSize response != len)) = true
  · rw [if_pos hfits]
    refine .failed habort ?_ rfl rfl
    simp only [Expects, state]
    rintro ⟨-, -, hbuf, hlen⟩
    rcases hfits with hlarge | hany
    · omega
    · obtain ⟨len, hsome, hbad⟩ := (Option.any_eq_true _ _).mp hany
      obtain ⟨hle, hexact⟩ := hlen len hsome
      simp only [Bool.or_eq_true, decide_eq_true_eq, Bool.and_eq_true, bne_iff_ne] at hbad
      rcases hbad with hlt | ⟨hlast, hne⟩
      · omega
      · exact hne (hexact hlast)
  · rw [if_neg hfits]
    have hexpected : c.Expects response := by
      simp only [not_or, Nat.not_lt, Bool.not_eq_true, Option.any_eq_false] at hfits
      simp only [Expects, state]
      refine ⟨service, htoggle, hfits.1, fun len hsome => ?_⟩
      have hlen := hfits.2 len hsome
      simp only [Bool.or_eq_false_iff, decide_eq_false_iff_not, Nat.not_lt,
        Bool.and_eq_false_iff, bne_eq_false_iff_eq] at hlen
      refine ⟨hlen.1, fun hlast => ?_⟩
      exact hlen.2.resolve_left (by simp [hlast])
    cases hlast : lastBit response.b0 with
    | true => exact .lastSegment state hexpected hlast
    | false => exact .segment state hexpected hlast

theorem processResponse_cases (c : SdoClient BUF) (response : SdoFrame) :
    ClientStep c response (c.processResponse response).1 (c.processResponse response).2 := by
  unfold processResponse
  dsimp only
  by_cases service : commandSpecifier response.b0 = Scs.abortTransfer.toByte
  · rw [if_pos service]
    exact handleAbort_cases c service
  rw [if_neg service]
  cases state : c.state with
  | idle => exact .failed service (by simp [Expects, state]) state rfl
  | waitingUploadInitResponse index subindex =>
    dsimp only
    by_cases answer : answers response .initiateUploadResponse index subindex = true
    · rw [if_pos answer]
      exact handleUploadInitResponse_cases service state answer
    · rw [if_neg answer]
      exact .failed service (by simp [Expects, state, answer]) rfl rfl
  | uploadSegmented index subindex toggle =>
    dsimp only
    by_cases hservice : commandSpecifier response.b0 = Scs.uploadSegmentResponse.toByte
    · rw [if_pos hservice]
      exact handleUploadSegmentResponse_cases hservice state
    · rw [if_neg hservice]
      exact .failed service (by simp [Expects, state, hservice]) rfl rfl
  | waitingDownloadInitResponse index subindex =>
    dsimp only
    by_cases answer : answers response .initiateDownloadResponse index subindex = true
    · rw [if_pos answer]
      have hexpected : c.Expects response := by simpa [Expects, state] using answer
      unfold handleDownloadInitResponse
      by_cases hshort : 0 < c.totalLen ∧ c.totalLen ≤ 4
      · rw [if_pos hshort]
        exact .written state hexpected hshort
      · rw [if_neg hshort]
        exact .sending state hexpected hshort
    · rw [if_neg answer]
      exact .failed service (by simp [Expects, state, answer]) rfl rfl
  | downloadSegmented index subindex toggle =>
    dsimp only
    by_cases hservice : commandSpecifier response.b0 = Scs.downloadSegmentResponse.toByte
    · rw [if_pos hservice]
      unfold handleDownloadSegmentResponse
      by_cases htoggle : toggleBit response.b0 ≠ toggle
      · rw [if_pos htoggle]
        exact .failed service (by simp [Expects, state, htoggle]) rfl rfl
      · rw [if_neg htoggle]
        have hexpected : c.Expects response := by
          simpa [Expects, state, hservice] using htoggle
        by_cases hall : c.totalLen ≤ c.offset
        · rw [if_pos hall]
          exact .sent state hexpected hall
        · rw [if_neg hall]
          exact .sendingOn state hexpected (Nat.lt_of_not_le hall)
    · rw [if_neg hservice]
      exact .failed service (by simp [Expects, state, hservice]) rfl rfl

end SdoClient
end Canopen.Sdo
