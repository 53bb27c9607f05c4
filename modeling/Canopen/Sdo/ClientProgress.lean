import Canopen.Sdo.ClientSteps

/-!
# Progress of client transfers

A transfer answers one response after the other until it has a result (`sdo/driver.rs`).
Every segment of a download is at least one byte further, and so is every segment of an
upload that is not empty. The client takes empty segments, though, and a server that goes
on sending them keeps an upload going without a byte.
-/

namespace Canopen.Sdo

namespace SdoClient

variable {BUF : ℕ}

/-- Answer responses until the transfer is over: the frames sent on the way and the
result, which is missing if the responses end first. -/
def drive (c : SdoClient BUF) : List SdoFrame → SdoClient BUF × List CanFrame × Option SdoClientResult
  | [] => (c, [], none)
  | response :: rest =>
    match c.processResponse response with
    | (c', .sendNext frame) =>
      let r := c'.drive rest
      (r.1, frame :: r.2.1, r.2.2)
    | (c', .ignoredAbort) => c'.drive rest
    | (c', result) => (c', [], some result)

variable {c c' : SdoClient BUF} {response : SdoFrame} {rest : List SdoFrame}
  {object : UInt16 × UInt8}

theorem drive_sendNext {frame : CanFrame} (h : c.processResponse response = (c', .sendNext frame)) :
    c.drive (response :: rest) =
      ((c'.drive rest).1, frame :: (c'.drive rest).2.1, (c'.drive rest).2.2) := by
  rw [drive, h]

theorem drive_ignored (h : c.processResponse response = (c', .ignoredAbort)) :
    c.drive (response :: rest) = c'.drive rest := by
  rw [drive, h]

theorem processResponse_foreign (hactive : c.state.active = some object)
    (hforeign : isForeignAbort object response = true) :
    c.processResponse response = (c, .ignoredAbort) := by
  have service : commandSpecifier response.b0 = Scs.abortTransfer.toByte := by
    simp only [isForeignAbort, Bool.and_eq_true, beq_iff_eq] at hforeign
    exact hforeign.1.1
  rw [isForeignAbort_eq service] at hforeign
  unfold processResponse handleAbort
  dsimp only
  rw [if_pos service, hactive, Option.any_some, if_pos hforeign]

/-- A transfer goes on, or stays where it is after an abort for another object, or is over. -/
theorem drive_cases (c : SdoClient BUF) (response : SdoFrame) (rest : List SdoFrame) :
    (∃ c' frame, c.processResponse response = (c', .sendNext frame) ∧
      c.drive (response :: rest) =
        ((c'.drive rest).1, frame :: (c'.drive rest).2.1, (c'.drive rest).2.2)) ∨
    (∃ object, c.state.active = some object ∧ isForeignAbort object response = true ∧
      c.drive (response :: rest) = c.drive rest) ∨
    ∃ c' result, c.processResponse response = (c', result) ∧ c'.state = .idle ∧
      (∀ object, c.state.active = some object → isForeignAbort object response = false) ∧
      c.drive (response :: rest) = (c', [], some result) := by
  have hown {object : UInt16 × UInt8} (h : (c.processResponse response).2 ≠ .ignoredAbort)
      (hactive : c.state.active = some object) : isForeignAbort object response = false := by
    rw [Bool.eq_false_iff]
    intro hforeign
    rw [processResponse_foreign hactive hforeign] at h
    exact h rfl
  rcases hr : c.processResponse response with ⟨c', result⟩
  have hstep := processResponse_cases c response
  rw [hr] at hstep hown
  cases hstep with
  | ignored active foreign => exact .inr (.inl ⟨_, active, foreign, drive_ignored hr⟩)
  | opening | segment | sending | sendingOn => exact .inl ⟨_, _, rfl, drive_sendNext hr⟩
  | failed _ _ idle =>
    exact .inr (.inr ⟨_, _, rfl, idle, fun _ => hown (by simp), by rw [drive, hr]⟩)
  | aborted | expedited | lastSegment | written | sent =>
    exact .inr (.inr ⟨_, _, rfl, rfl, fun _ => hown (by simp), by rw [drive, hr]⟩)

/-! ## Aborts for other objects -/

theorem active_of_sendNext {frame : CanFrame}
    (h : c.processResponse response = (c', .sendNext frame)) : c'.state.active = c.state.active := by
  have hstep := processResponse_cases c response
  rw [h] at hstep
  cases hstep with
  | opening state => rw [state]; rfl
  | segment state => rw [state]; rfl
  | sending state => rw [state]; rfl
  | sendingOn state => rw [state]; rfl

theorem own_of_sendNext {frame : CanFrame} (h : c.processResponse response = (c', .sendNext frame))
    (hactive : c.state.active = some object) : isForeignAbort object response = false := by
  rw [Bool.eq_false_iff]
  intro hforeign
  rw [processResponse_foreign hactive hforeign] at h
  cases h

/-- The responses without the aborts for other objects. -/
def own (object : UInt16 × UInt8) (responses : List SdoFrame) : List SdoFrame :=
  responses.filter fun response => !isForeignAbort object response

theorem own_cons (object : UInt16 × UInt8) (response : SdoFrame) (rest : List SdoFrame) :
    own object (response :: rest) =
      if isForeignAbort object response then own object rest else response :: own object rest := by
  unfold own
  rw [List.filter_cons]
  cases isForeignAbort object response <;> rfl

/-- A transfer goes on as if aborts for other objects had not been received. -/
theorem drive_own (hactive : c.state.active = some object) (responses : List SdoFrame) :
    c.drive (own object responses) = c.drive responses := by
  induction responses generalizing c with
  | nil => rfl
  | cons response rest ih =>
    rw [own_cons]
    rcases drive_cases c response rest with ⟨c', frame, hr, hdrive⟩ | ⟨object', hobject, hforeign, hdrive⟩ |
      ⟨c', result, hr, -, hown, hdrive⟩
    · have hnot := own_of_sendNext hr hactive
      have hrest := ih ((active_of_sendNext hr).trans hactive)
      rw [hdrive, hnot, if_neg (by decide), drive_sendNext hr, hrest]
    · cases hactive.symm.trans hobject
      rw [hdrive, hforeign, if_pos rfl, ih hactive]
    · rw [hown object hactive, if_neg (by decide), hdrive]
      rcases drive_cases c response (own object rest) with ⟨c₁, frame, hr₁, -⟩ | ⟨_, hobject, hforeign, -⟩ |
        ⟨c₁, result₁, hr₁, -, -, hdrive₁⟩
      · exact absurd hdrive (by rw [drive_sendNext hr₁]; simp)
      · rw [hown _ hobject] at hforeign
        cases hforeign
      · rw [hdrive₁]
        obtain ⟨rfl, rfl⟩ := Prod.mk.inj (hr.symm.trans hr₁)
        rfl

/-! ## Counting requests -/

/-- The number of requests after the first one. -/
def sends (c : SdoClient BUF) (responses : List SdoFrame) : ℕ := (c.drive responses).2.1.length

theorem sends_cases (c : SdoClient BUF) (response : SdoFrame) (rest : List SdoFrame) :
    (∃ c' frame, c.processResponse response = (c', .sendNext frame) ∧
      c.sends (response :: rest) = c'.sends rest + 1) ∨
    c.sends (response :: rest) = c.sends rest ∨ c.sends (response :: rest) = 0 := by
  unfold sends
  rcases drive_cases c response rest with ⟨c', frame, hr, hdrive⟩ | ⟨-, -, -, hdrive⟩ |
    ⟨c', result, -, -, -, hdrive⟩
  · exact .inl ⟨c', frame, hr, by rw [hdrive]; rfl⟩
  · exact .inr (.inl (by rw [hdrive]))
  · exact .inr (.inr (by rw [hdrive]; rfl))

/-- Without a result every response of the transfer has been answered. -/
theorem sends_of_unfinished (hactive : c.state.active = some object) {responses : List SdoFrame}
    (h : (c.drive responses).2.2 = none) : c.sends responses = (own object responses).length := by
  induction responses generalizing c with
  | nil => rfl
  | cons response rest ih =>
    rw [own_cons]
    unfold sends at ih ⊢
    rcases drive_cases c response rest with ⟨c', frame, hr, hdrive⟩ | ⟨object', hobject, hforeign, hdrive⟩ |
      ⟨c', result, -, -, -, hdrive⟩
    · have hnot := own_of_sendNext hr hactive
      rw [hdrive] at h ⊢
      have hrest := ih ((active_of_sendNext hr).trans hactive) h
      rw [hnot, if_neg (by decide), List.length_cons, List.length_cons, hrest]
    · cases hactive.symm.trans hobject
      rw [hdrive] at h ⊢
      rw [hforeign, if_pos rfl, ih hactive h]
    · rw [hdrive] at h
      cases h

/-! ## Downloads -/

theorem advance_of_sendNext {frame : CanFrame} {index : UInt16} {subindex : UInt8} {toggle : Bool}
    (state : c.state = .downloadSegmented index subindex toggle)
    (h : c.processResponse response = (c', .sendNext frame)) :
    c'.state = .downloadSegmented index subindex (!toggle) ∧ c'.totalLen = c.totalLen ∧
      c.offset < c.totalLen ∧ c'.offset = c.offset + min (c.totalLen - c.offset) 7 := by
  have hstep := processResponse_cases c response
  rw [h] at hstep
  cases hstep with
  | opening state' => cases state.symm.trans state'
  | segment state' => cases state.symm.trans state'
  | sending state' => cases state.symm.trans state'
  | sendingOn state' _ more =>
    cases state.symm.trans state'
    exact ⟨rfl, rfl, more, rfl⟩

/-- Every further segment of a download sends at least one byte. -/
theorem sends_downloadSegmented {index : UInt16} {subindex : UInt8} {toggle : Bool}
    (state : c.state = .downloadSegmented index subindex toggle) (responses : List SdoFrame) :
    c.sends responses ≤ c.totalLen - c.offset := by
  induction responses generalizing c toggle with
  | nil => exact Nat.zero_le _
  | cons response rest ih =>
    rcases sends_cases c response rest with ⟨c', frame, hr, hsends⟩ | hsends | hsends
    · obtain ⟨state', htotal, hmore, hoffset⟩ := advance_of_sendNext state hr
      have hrest := ih state'
      omega
    · rw [hsends]
      exact ih state
    · rw [hsends]
      exact Nat.zero_le _

theorem first_of_sendNext {frame : CanFrame} {index : UInt16} {subindex : UInt8}
    (state : c.state = .waitingDownloadInitResponse index subindex)
    (h : c.processResponse response = (c', .sendNext frame)) :
    ¬(0 < c.totalLen ∧ c.totalLen ≤ 4) ∧ c'.state = .downloadSegmented index subindex false ∧
      c'.totalLen = c.totalLen ∧ c'.offset = c.offset + min (c.totalLen - c.offset) 7 := by
  have hstep := processResponse_cases c response
  rw [h] at hstep
  cases hstep with
  | opening state' => cases state.symm.trans state'
  | segment state' => cases state.symm.trans state'
  | sendingOn state' => cases state.symm.trans state'
  | sending state' _ long =>
    cases state.symm.trans state'
    exact ⟨long, rfl, rfl, rfl⟩

/-- An expedited download sends nothing more; a segmented one at most one segment for each
byte, and at least one. -/
theorem sends_waitingDownload {index : UInt16} {subindex : UInt8}
    (state : c.state = .waitingDownloadInitResponse index subindex) (responses : List SdoFrame) :
    c.sends responses ≤ c.totalLen - c.offset + 1 ∧
      (0 < c.totalLen ∧ c.totalLen ≤ 4 → c.sends responses = 0) := by
  induction responses with
  | nil => exact ⟨Nat.zero_le _, fun _ => rfl⟩
  | cons response rest ih =>
    rcases sends_cases c response rest with ⟨c', frame, hr, hsends⟩ | hsends | hsends
    · obtain ⟨long, state', htotal, hoffset⟩ := first_of_sendNext state hr
      have hrest := sends_downloadSegmented state' rest
      exact ⟨by omega, fun hshort => absurd hshort long⟩
    · rw [hsends]
      exact ih
    · rw [hsends]
      exact ⟨Nat.zero_le _, fun _ => rfl⟩

end SdoClient

/-! ## Uploads -/

/-- A segment that leaves an upload of at most `limit` bytes unfinished. -/
structure Continues (limit offset : ℕ) (toggle : Bool) (response : SdoFrame) : Prop where
  service : commandSpecifier response.b0 = Scs.uploadSegmentResponse.toByte
  toggled : toggleBit response.b0 = toggle
  more : lastBit response.b0 = false
  fits : offset + segmentSize response ≤ limit

/-- Segments that leave the upload unfinished, one after the other. -/
def Feeds (limit : ℕ) : ℕ → Bool → List SdoFrame → Prop
  | _, _, [] => True
  | offset, toggle, response :: rest =>
    Continues limit offset toggle response ∧
      Feeds limit (offset + segmentSize response) (!toggle) rest

/-- Only empty segments come for nothing. -/
theorem Feeds.length_le {limit offset : ℕ} {toggle : Bool} {segments : List SdoFrame}
    (h : Feeds limit offset toggle segments) :
    segments.length ≤ limit - offset + segments.countP (segmentSize · == 0) := by
  induction segments generalizing offset toggle with
  | nil => exact Nat.zero_le _
  | cons response rest ih =>
    obtain ⟨hcontinues, hrest⟩ := h
    have hfits := hcontinues.fits
    have hle := ih hrest
    rw [List.length_cons, List.countP_cons]
    by_cases hempty : segmentSize response = 0
    · simp only [hempty, beq_self_eq_true, if_true]
      omega
    · simp only [beq_iff_eq, hempty, if_false]
      omega

/-- The answer that begins an upload in segments. -/
structure Opens (BUF : ℕ) (index : UInt16) (subindex : UInt8) (response : SdoFrame) : Prop where
  answer : SdoClient.answers response .initiateUploadResponse index subindex = true
  segmented : isExpedited response = false
  fits : ∀ len, announcedSize response = some len → len ≤ BUF

theorem Opens.limit_le {BUF : ℕ} {index : UInt16} {subindex : UInt8} {response : SdoFrame}
    (h : Opens BUF index subindex response) :
    (announcedSize response).getD BUF ≤ BUF := by
  cases hsize : announcedSize response with
  | none => exact Nat.le_refl BUF
  | some len => exact h.fits len hsize

namespace SdoClient

variable {BUF : ℕ} {c c' : SdoClient BUF} {response : SdoFrame} {index : UInt16} {subindex : UInt8}
  {toggle : Bool}

/-- The number of bytes an upload may come to. -/
def limit (c : SdoClient BUF) : ℕ := c.uploadLen.getD BUF

theorem expects_continues (state : c.state = .uploadSegmented index subindex toggle)
    (hlimit : c.limit ≤ BUF) : c.Expects response ∧ lastBit response.b0 = false ↔
      Continues c.limit c.offset toggle response := by
  unfold limit at hlimit ⊢
  simp only [Expects, state]
  constructor
  · rintro ⟨⟨service, toggled, hbuf, hlen⟩, more⟩
    refine ⟨service, toggled, more, ?_⟩
    cases hsome : c.uploadLen with
    | none => exact hbuf
    | some len => exact (hlen len hsome).1
  · rintro ⟨service, toggled, more, fits⟩
    refine ⟨⟨service, toggled, fits.trans hlimit, fun len hsome => ?_⟩, more⟩
    rw [hsome] at fits
    exact ⟨fits, fun hlast => absurd hlast (by simp [more])⟩

/-- The client goes on with exactly the segments that leave the upload unfinished. -/
theorem continues_of_sendNext {frame : CanFrame}
    (state : c.state = .uploadSegmented index subindex toggle) (hlimit : c.limit ≤ BUF)
    (h : c.processResponse response = (c', .sendNext frame)) :
    Continues c.limit c.offset toggle response ∧
      c'.state = .uploadSegmented index subindex (!toggle) ∧ c'.limit = c.limit ∧
      c'.offset = c.offset + segmentSize response := by
  have hstep := processResponse_cases c response
  rw [h] at hstep
  cases hstep with
  | opening state' => cases state.symm.trans state'
  | sending state' => cases state.symm.trans state'
  | sendingOn state' => cases state.symm.trans state'
  | segment state' expected more =>
    cases state.symm.trans state'
    exact ⟨(expects_continues state hlimit).mp ⟨expected, more⟩, rfl, rfl, rfl⟩

theorem sendNext_of_continues (state : c.state = .uploadSegmented index subindex toggle)
    (hlimit : c.limit ≤ BUF) (h : Continues c.limit c.offset toggle response) :
    ∃ c' frame, c.processResponse response = (c', .sendNext frame) := by
  obtain ⟨expected, more⟩ := (expects_continues state hlimit).mpr h
  have habort : commandSpecifier response.b0 ≠ Scs.abortTransfer.toByte := by
    rw [h.service]
    decide
  rcases hr : c.processResponse response with ⟨c', result⟩
  have hstep := processResponse_cases c response
  rw [hr] at hstep
  cases hstep with
  | ignored _ foreign =>
    simp only [isForeignAbort, Bool.and_eq_true, beq_iff_eq] at foreign
    exact absurd foreign.1.1 habort
  | aborted service => exact absurd service habort
  | failed _ unexpected => exact absurd expected unexpected
  | expedited state' => cases state.symm.trans state'
  | written state' => cases state.symm.trans state'
  | sent state' => cases state.symm.trans state'
  | lastSegment _ _ last => exact absurd last (by simp [more])
  | opening | segment | sending | sendingOn => exact ⟨_, _, rfl⟩

theorem le_sends_uploadSegmented (state : c.state = .uploadSegmented index subindex toggle)
    (hlimit : c.limit ≤ BUF) {responses : List SdoFrame}
    (hown : ∀ r ∈ responses, isForeignAbort (index, subindex) r = false) (m : ℕ) :
    m ≤ c.sends responses ↔ ∃ segments, segments <+: responses ∧ segments.length = m ∧
      Feeds c.limit c.offset toggle segments := by
  induction responses generalizing c toggle m with
  | nil =>
    constructor
    · intro hm
      exact ⟨[], List.prefix_rfl, (Nat.le_zero.mp hm).symm, trivial⟩
    · rintro ⟨segments, hfirst, rfl, -⟩
      rw [List.prefix_nil.mp hfirst]
      exact Nat.zero_le _
  | cons response rest ih =>
    cases m with
    | zero => exact iff_of_true (Nat.zero_le _) ⟨[], List.nil_prefix, rfl, trivial⟩
    | succ m =>
      have hhead := hown response List.mem_cons_self
      have htail : ∀ r ∈ rest, isForeignAbort (index, subindex) r = false :=
        fun r hr => hown r (List.mem_cons_of_mem _ hr)
      constructor
      · intro hm
        rcases drive_cases c response rest with ⟨c', frame, hr, hdrive⟩ |
          ⟨object, hobject, hforeign, -⟩ | ⟨c', result, -, -, -, hdrive⟩
        · obtain ⟨hcontinues, state', hsame, hoffset⟩ := continues_of_sendNext state hlimit hr
          have hrest : m ≤ c'.sends rest := by
            unfold sends at hm
            rw [hdrive] at hm
            exact Nat.le_of_succ_le_succ hm
          obtain ⟨segments, hfirst, hlen, hfeeds⟩ := (ih state' (hsame ▸ hlimit) htail m).mp hrest
          rw [hsame, hoffset] at hfeeds
          exact ⟨response :: segments, List.cons_prefix_cons.mpr ⟨rfl, hfirst⟩, by simp [hlen],
            hcontinues, hfeeds⟩
        · rw [state] at hobject
          cases hobject
          rw [hhead] at hforeign
          cases hforeign
        · unfold sends at hm
          rw [hdrive] at hm
          cases hm
      · rintro ⟨segments, hfirst, hlen, hfeeds⟩
        cases segments with
        | nil => cases hlen
        | cons first segments =>
          obtain ⟨rfl, hfront⟩ := List.cons_prefix_cons.mp hfirst
          obtain ⟨hcontinues, hfeeds⟩ := hfeeds
          obtain ⟨c', frame, hr⟩ := sendNext_of_continues state hlimit hcontinues
          obtain ⟨-, state', hsame, hoffset⟩ := continues_of_sendNext state hlimit hr
          rw [← hsame, ← hoffset] at hfeeds
          have hrest := (ih state' (hsame ▸ hlimit) htail m).mpr
            ⟨segments, hfront, Nat.succ.inj hlen, hfeeds⟩
          unfold sends at hrest ⊢
          rw [drive_sendNext hr]
          exact Nat.succ_le_succ hrest

theorem opens_of_sendNext {frame : CanFrame}
    (state : c.state = .waitingUploadInitResponse index subindex)
    (h : c.processResponse response = (c', .sendNext frame)) :
    Opens BUF index subindex response ∧ c'.state = .uploadSegmented index subindex false ∧
      c'.limit = (announcedSize response).getD BUF ∧ c'.offset = 0 := by
  have hstep := processResponse_cases c response
  rw [h] at hstep
  cases hstep with
  | segment state' => cases state.symm.trans state'
  | sending state' => cases state.symm.trans state'
  | sendingOn state' => cases state.symm.trans state'
  | opening state' expected segmented =>
    cases state.symm.trans state'
    simp only [Expects, state, segmented] at expected
    exact ⟨⟨expected.1, segmented, expected.2⟩, rfl, rfl, rfl⟩

theorem sendNext_of_opens (state : c.state = .waitingUploadInitResponse index subindex)
    (h : Opens BUF index subindex response) :
    ∃ c' frame, c.processResponse response = (c', .sendNext frame) := by
  have expected : c.Expects response := by
    simp only [Expects, state, h.segmented]
    exact ⟨h.answer, h.fits⟩
  have habort : commandSpecifier response.b0 ≠ Scs.abortTransfer.toByte := by
    have hanswer := h.answer
    simp only [answers, Bool.and_eq_true, beq_iff_eq] at hanswer
    rw [hanswer.1]
    decide
  rcases hr : c.processResponse response with ⟨c', result⟩
  have hstep := processResponse_cases c response
  rw [hr] at hstep
  cases hstep with
  | ignored _ foreign =>
    simp only [isForeignAbort, Bool.and_eq_true, beq_iff_eq] at foreign
    exact absurd foreign.1.1 habort
  | aborted service => exact absurd service habort
  | failed _ unexpected => exact absurd expected unexpected
  | expedited _ _ carries => exact absurd carries (by simp [h.segmented])
  | written state' => cases state.symm.trans state'
  | sent state' => cases state.symm.trans state'
  | lastSegment state' => cases state.symm.trans state'
  | opening | segment | sending | sendingOn => exact ⟨_, _, rfl⟩

/-- An upload sends a request for every segment, up to the first response that ends it. -/
theorem lt_sends_waitingUpload (state : c.state = .waitingUploadInitResponse index subindex)
    {responses : List SdoFrame}
    (hown : ∀ r ∈ responses, isForeignAbort (index, subindex) r = false) (m : ℕ) :
    m < c.sends responses ↔ ∃ first segments, first :: segments <+: responses ∧
      Opens BUF index subindex first ∧ segments.length = m ∧
      Feeds ((announcedSize first).getD BUF) 0 false segments := by
  cases responses with
  | nil =>
    refine iff_of_false (Nat.not_lt_zero m) ?_
    rintro ⟨first, segments, hfirst, -⟩
    cases List.prefix_nil.mp hfirst
  | cons response rest =>
    have hhead := hown response List.mem_cons_self
    have htail : ∀ r ∈ rest, isForeignAbort (index, subindex) r = false :=
      fun r hr => hown r (List.mem_cons_of_mem _ hr)
    constructor
    · intro hm
      rcases drive_cases c response rest with ⟨c', frame, hr, hdrive⟩ |
        ⟨object, hobject, hforeign, -⟩ | ⟨c', result, -, -, -, hdrive⟩
      · obtain ⟨hopens, state', hlimit, hoffset⟩ := opens_of_sendNext state hr
        have hrest : m ≤ c'.sends rest := by
          unfold sends at hm
          rw [hdrive] at hm
          exact Nat.le_of_lt_succ hm
        obtain ⟨segments, hfirst, hlen, hfeeds⟩ :=
          (le_sends_uploadSegmented state' (hlimit ▸ hopens.limit_le) htail m).mp hrest
        rw [hlimit, hoffset] at hfeeds
        exact ⟨response, segments, List.cons_prefix_cons.mpr ⟨rfl, hfirst⟩, hopens, hlen, hfeeds⟩
      · rw [state] at hobject
        cases hobject
        rw [hhead] at hforeign
        cases hforeign
      · unfold sends at hm
        rw [hdrive] at hm
        cases hm
    · rintro ⟨first, segments, hfirst, hopens, hlen, hfeeds⟩
      obtain ⟨rfl, hfront⟩ := List.cons_prefix_cons.mp hfirst
      obtain ⟨c', frame, hr⟩ := sendNext_of_opens state hopens
      obtain ⟨-, state', hlimit, hoffset⟩ := opens_of_sendNext state hr
      rw [← hlimit, ← hoffset] at hfeeds
      have hrest := (le_sends_uploadSegmented state' (hlimit ▸ hopens.limit_le) htail m).mpr
        ⟨segments, hfront, hlen, hfeeds⟩
      unfold sends at hrest ⊢
      rw [drive_sendNext hr]
      exact Nat.lt_succ_of_le hrest

end SdoClient

/-! ## Transfers -/

/-- What a client is asked to transfer. -/
inductive Transfer
  | upload (index : UInt16) (subindex : UInt8)
  | download (index : UInt16) (subindex : UInt8) (value : List UInt8)
  deriving DecidableEq, Repr

def Transfer.object : Transfer → UInt16 × UInt8
  | .upload index subindex => (index, subindex)
  | .download index subindex _ => (index, subindex)

/-- The client after the first request. -/
def SdoClient.start {BUF : ℕ} (c : SdoClient BUF) : Transfer → SdoClient BUF
  | .upload index subindex => (c.startUpload index subindex).1
  | .download index subindex value => (c.startDownload index subindex value).1

/-- The server opens an upload in segments and follows with `BUF + 2` segments that are all
in order, but not the last one. -/
def Stalls (BUF : ℕ) : Transfer → List SdoFrame → Prop
  | .upload index subindex, responses =>
    ∃ first segments, first :: segments <+: SdoClient.own (index, subindex) responses ∧
      Opens BUF index subindex first ∧ segments.length = BUF + 2 ∧
      Feeds ((announcedSize first).getD BUF) 0 false segments
  | .download _ _ _, _ => False

theorem own_mem {object : UInt16 × UInt8} {responses : List SdoFrame} :
    ∀ r ∈ SdoClient.own object responses, isForeignAbort object r = false := by
  intro r hr
  simpa using (List.mem_filter.mp hr).2

theorem sends_own {BUF : ℕ} {c : SdoClient BUF} {object : UInt16 × UInt8}
    (hactive : c.state.active = some object) (responses : List SdoFrame) :
    c.sends (SdoClient.own object responses) = c.sends responses := by
  unfold SdoClient.sends
  rw [SdoClient.drive_own hactive]

/-- A client without a transfer sends nothing. -/
theorem drive_idle {BUF : ℕ} {c : SdoClient BUF} (h : c.state = .idle) (response : SdoFrame)
    (rest : List SdoFrame) :
    ∃ c' result, c.drive (response :: rest) = (c', [], some result) := by
  rcases SdoClient.drive_cases c response rest with ⟨c', frame, hr, -⟩ | ⟨object, hobject, -⟩ |
    ⟨c', result, -, -, -, hdrive⟩
  · have hstep := SdoClient.processResponse_cases c response
    rw [hr] at hstep
    cases hstep with
    | opening state => cases h.symm.trans state
    | segment state => cases h.symm.trans state
    | sending state => cases h.symm.trans state
    | sendingOn state => cases h.symm.trans state
  · rw [h] at hobject
    cases hobject
  · exact ⟨c', result, hdrive⟩

theorem startDownload_cases {BUF : ℕ} (c : SdoClient BUF) (index : UInt16) (subindex : UInt8)
    (value : List UInt8) :
    let c' := (c.startDownload index subindex value).1
    c'.state = .idle ∨ c'.state = .waitingDownloadInitResponse index subindex ∧
      (0 < c'.totalLen ∧ c'.totalLen ≤ 4 ∨ c'.offset = 0 ∧ c'.totalLen ≤ BUF) := by
  unfold SdoClient.startDownload
  split_ifs with hshort hlarge
  · exact .inr ⟨rfl, .inl hshort⟩
  · exact .inl rfl
  · exact .inr ⟨rfl, .inr ⟨rfl, Nat.le_of_not_lt hlarge⟩⟩

theorem sends_download_le {BUF : ℕ} (c : SdoClient BUF) (index : UInt16) (subindex : UInt8)
    (value : List UInt8) (responses : List SdoFrame) :
    (c.start (.download index subindex value)).sends responses ≤ BUF + 1 := by
  have hstart := startDownload_cases c index subindex value
  generalize hc : c.start (.download index subindex value) = c'
  have hc' : (c.startDownload index subindex value).1 = c' := hc
  rw [hc'] at hstart
  rcases hstart with hidle | ⟨state, hshort | ⟨hoffset, hfits⟩⟩
  · cases responses with
    | nil => exact Nat.zero_le _
    | cons response rest =>
      obtain ⟨c₁, result, hdrive⟩ := drive_idle hidle response rest
      unfold SdoClient.sends
      rw [hdrive]
      exact Nat.zero_le _
  · rw [(SdoClient.sends_waitingDownload state responses).2 hshort]
    exact Nat.zero_le _
  · have hle := (SdoClient.sends_waitingDownload state responses).1
    omega

/-- Exactly the stalling servers get more than `BUF + 2` requests out of a transfer. -/
theorem sends_le_iff {BUF : ℕ} (c : SdoClient BUF) (transfer : Transfer) (responses : List SdoFrame) :
    (c.start transfer).sends responses ≤ BUF + 2 ↔ ¬Stalls BUF transfer responses := by
  cases transfer with
  | upload index subindex =>
    have hactive : (c.start (.upload index subindex)).state.active = some (index, subindex) := rfl
    have hiff : BUF + 2 < (c.start (.upload index subindex)).sends
        (SdoClient.own (index, subindex) responses) ↔ _ :=
      SdoClient.lt_sends_waitingUpload rfl own_mem (BUF + 2)
    rw [sends_own hactive] at hiff
    rw [← Nat.not_lt]
    exact not_congr hiff
  | download index subindex value =>
    have hle := sends_download_le c index subindex value responses
    exact iff_of_true (by omega) not_false

theorem Feeds.more {limit offset : ℕ} {toggle : Bool} {segments : List SdoFrame}
    (h : Feeds limit offset toggle segments) : ∀ r ∈ segments, lastBit r.b0 = false := by
  induction segments generalizing offset toggle with
  | nil => simp
  | cons response rest ih =>
    intro r hr
    rcases List.mem_cons.mp hr with rfl | hr
    · exact h.1.more
    · exact ih h.2 r hr

/-- A segment that neither carries a byte nor ends the upload. -/
def isEmptySegment (response : SdoFrame) : Bool :=
  !lastBit response.b0 && segmentSize response == 0

theorem Stalls.empty {BUF : ℕ} {transfer : Transfer} {responses : List SdoFrame}
    (h : Stalls BUF transfer responses) : 2 ≤ responses.countP isEmptySegment := by
  cases transfer with
  | download index subindex value => exact absurd h not_false
  | upload index subindex =>
    obtain ⟨first, segments, hfirst, hopens, hlen, hfeeds⟩ := h
    have hle := hfeeds.length_le
    have hlimit := hopens.limit_le
    have hsame : segments.countP (segmentSize · == 0) = segments.countP isEmptySegment := by
      apply List.countP_congr
      intro r hr
      simp [isEmptySegment, hfeeds.more r hr]
    have hsub : List.Sublist segments responses :=
      (List.sublist_cons_self first segments).trans (hfirst.sublist.trans List.filter_sublist)
    have hcount : segments.countP isEmptySegment ≤ responses.countP isEmptySegment := hsub.countP_le
    omega

/-! ## The driver -/

/-- The errors of a driver that neither time nor transport are the cause of. -/
inductive SdoError
  | aborted (code : SdoAbort)
  | protocolError
  | tooLarge
  deriving DecidableEq, Repr

namespace SdoDriver

/-- The size of the driver's transfer buffer. -/
def maxTransfer : ℕ := 256

/-- Read an object into a buffer of `bufLen` bytes. `none` while the driver waits for the
next response. -/
def upload (target : NodeId) (index : UInt16) (subindex : UInt8) (bufLen : ℕ)
    (responses : List SdoFrame) : Option (Except SdoError (List UInt8 × Bool)) :=
  let client : SdoClient maxTransfer := .new target
  let (client, _, result) := (client.startUpload index subindex).1.drive responses
  result.map fun
    | .uploadComplete dataLen =>
      if bufLen < dataLen then .error .tooLarge
      else .ok (client.data.take dataLen, client.uploadSizeIndicated)
    | .aborted code => .error (.aborted code)
    | _ => .error .protocolError

/-- Write an object. -/
def download (target : NodeId) (index : UInt16) (subindex : UInt8) (data : List UInt8)
    (responses : List SdoFrame) : Option (Except SdoError Unit) :=
  let client : SdoClient maxTransfer := .new target
  match client.startDownload index subindex data with
  | (_, none) => some (.error .tooLarge)
  | (client, some _) =>
    (client.drive responses).2.2.map fun
      | .downloadComplete => .ok ()
      | .aborted code => .error (.aborted code)
      | _ => .error .protocolError

end SdoDriver

/-- Without stalling, a transfer has a result after `BUF + 3` responses at the latest. -/
theorem drive_finished {BUF : ℕ} (c : SdoClient BUF) {transfer : Transfer}
    {responses : List SdoFrame} (h : ¬Stalls BUF transfer responses)
    (hlen : BUF + 2 < (SdoClient.own transfer.object responses).length) :
    ((c.start transfer).drive responses).2.2.isSome = true := by
  rw [Option.isSome_iff_ne_none]
  intro hnone
  have hle := (sends_le_iff c transfer responses).mpr h
  have hcount (hactive : (c.start transfer).state.active = some transfer.object) : False := by
    have hsends := SdoClient.sends_of_unfinished hactive hnone
    omega
  cases transfer with
  | upload index subindex => exact hcount rfl
  | download index subindex value =>
    rcases startDownload_cases c index subindex value with hidle | ⟨state, -⟩
    · cases responses with
      | nil => cases hlen
      | cons response rest =>
        obtain ⟨c', result, hdrive⟩ :=
          drive_idle (c := c.start (.download index subindex value)) hidle response rest
        rw [hdrive] at hnone
        cases hnone
    · apply hcount
      change (c.startDownload index subindex value).1.state.active = _
      rw [state]
      rfl

/-- A transfer gets at most `BUF + 2` requests out of the client exactly if the server does
not stall, and the loops of the driver then end. No download stalls, and an upload only
through empty segments. -/
theorem transfers_make_progress {BUF : ℕ} (c : SdoClient BUF) (transfer : Transfer)
    (responses : List SdoFrame) :
    ((c.start transfer).sends responses ≤ BUF + 2 ↔ ¬Stalls BUF transfer responses) ∧
    (Stalls BUF transfer responses → 2 ≤ responses.countP isEmptySegment) ∧
    (¬Stalls BUF transfer responses →
      BUF + 2 < (SdoClient.own transfer.object responses).length →
      ((c.start transfer).drive responses).2.2.isSome = true) ∧
    (∀ target index subindex bufLen, transfer = .upload index subindex →
      ¬Stalls SdoDriver.maxTransfer transfer responses →
      SdoDriver.maxTransfer + 2 < (SdoClient.own transfer.object responses).length →
      (SdoDriver.upload target index subindex bufLen responses).isSome = true) ∧
    (∀ target index subindex data, transfer = .download index subindex data →
      SdoDriver.maxTransfer + 2 < (SdoClient.own transfer.object responses).length →
      (SdoDriver.download target index subindex data responses).isSome = true) := by
  refine ⟨sends_le_iff c transfer responses, Stalls.empty, drive_finished c, ?_, ?_⟩
  · rintro target index subindex bufLen rfl hstalls hlen
    have hsome := drive_finished (.new target) hstalls hlen
    unfold SdoDriver.upload
    dsimp only
    rw [Option.isSome_map]
    exact hsome
  · rintro target index subindex data rfl hlen
    have hsome := @drive_finished _ (.new target : SdoClient SdoDriver.maxTransfer)
      (.download index subindex data) _ not_false hlen
    unfold SdoClient.start at hsome
    unfold SdoDriver.download
    dsimp only at hsome ⊢
    split
    · rfl
    · next client frame hstart =>
      rw [hstart] at hsome
      rw [Option.isSome_map]
      exact hsome

/-- Segments without a byte that ask for more, with alternating toggles. -/
def emptySegments (n : ℕ) : List SdoFrame :=
  (List.range n).map fun k => .segment (if k % 2 = 0 then 0x0E else 0x1E) []

/-- Eleven empty segments get twelve requests out of a client with eight bytes of buffer,
and the upload is still where it began. -/
theorem empty_segments_stall :
    let c : SdoClient 8 := (SdoClient.new ⟨5, by decide, by decide⟩).start (.upload 0x2000 0)
    let responses := .initiate 0x40 0x2000 0 [] :: emptySegments 11
    ¬c.sends responses ≤ 8 + 2 ∧ (c.drive responses).1.offset = 0 ∧
      (c.drive responses).2.2 = none := by
  decide

end Canopen.Sdo
