import Canopen.Node.Trace
import Canopen.Sdo.Activity

/-!
# Responses that are given up

A pending response is given up because of an abort of the client, because the node stops or is
reset, because it has been pending for too long, or because its transfer has been idle for too
long. `DiscardInv` follows the times of both limits back to what was observed of the channel.
-/

namespace Canopen

open Pdo Sdo

variable {OD : Type} [ObjectDictionary OD] {evt dirty : ℕ}

/-! ## Times -/

/-- The observations a channel makes under its own number. -/
def Obs.channel? : Obs → Option ℕ
  | .offer (.sdo j) _ _ _ => some j
  | .sdoRequest j _ _ => some j
  | .sdoProduced j _ _ => some j
  | .sdoDiscarded j _ _ _ => some j
  | _ => none

/-- When channel `i` handled a request or produced a frame. -/
def Obs.sdoTime (i : ℕ) : Obs → Option UInt64
  | .sdoRequest j _ nowUs => if j = i then some nowUs else none
  | .sdoProduced j _ nowUs => if j = i then some nowUs else none
  | _ => none

/-- Channel `i` produces nothing, and handles no request that counts as activity. -/
def Obs.passive (i : ℕ) : Obs → Bool
  | .sdoRequest j request _ => j != i || request.isBlockConfirm
  | .sdoProduced j _ _ => j != i
  | _ => true

def Obs.isDiscard : Obs → Bool
  | .sdoDiscarded _ _ _ _ => true
  | _ => false

def Obs.produces (i : ℕ) : Obs → Bool
  | .sdoProduced j _ _ => j == i
  | _ => false

/-- The last frame that channel `i` produced, and when. -/
def LastProduced (i : ℕ) (trace : List Obs) (data : SdoFrame) (since : UInt64) : Prop :=
  ∃ front rest, trace = front ++ .sdoProduced i data since :: rest ∧ ∀ o ∈ rest, o.produces i = false

/-- The last activity of channel `i`: since then it has produced nothing, and requests were ignored. -/
def LastActive (i : ℕ) (trace : List Obs) (lastUs : UInt64) : Prop :=
  ∃ front o rest, trace = front ++ o :: rest ∧ o.sdoTime i = some lastUs ∧ ∀ o ∈ rest, o.passive i = true

/-- Why channel `i` may give `frame` up, between what was observed before and after. -/
def Excused (i : ℕ) (before : List Obs) (frame : CanFrame) (after : List Obs) : DiscardReason → Prop
  | .clientAbort =>
    ∃ front request nowUs, before = front ++ [.sdoRequest i request nowUs] ∧ request.b0 = 0x80
  | .stopOrReset =>
    (∃ front old pdoDownload between, before = front ++ .nmt old .stopped pdoDownload :: between ∧
      ∀ o ∈ between, o.isDiscard = true) ∨
    ∃ between resetType rest, after = between ++ .reset resetType :: rest ∧
      ∀ o ∈ between, o.isDiscard = true
  | .residence nowUs =>
    ∃ data since, LastProduced i before data since ∧ frame.data = data.toList ∧
      sdoTimeoutUs ≤ nowUs - since
  | .inactivity nowUs =>
    (∃ lastUs, LastActive i before lastUs ∧ sdoTimeoutUs ≤ nowUs - lastUs) ∧
      ∃ data rest, after = .sdoProduced i data nowUs :: rest ∧ data.isAbort = true

/-- Every response that was given up had to be. -/
def AllExcused (trace : List Obs) : Prop :=
  ∀ before i frame reason idle after, trace = before ++ .sdoDiscarded i frame reason idle :: after →
    Excused i before frame after reason

/-- The times a channel goes by are those of its observations. -/
structure ChannelTimes (i : ℕ) (ch : SdoChannel) (trace : List Obs) : Prop where
  pending : ∀ frame since, ch.pending = some (frame, since) →
    ∃ data, LastProduced i trace data since ∧ frame.data = data.toList
  transfer : ∀ t, ch.server.transfer = some t → LastActive i trace t.lastActivityUs

structure DiscardInv (m : Machine OD evt dirty) : Prop where
  times : ∀ i ch, m.node.sdo[i]? = some ch → ChannelTimes i ch m.bus.trace
  excused : AllExcused m.bus.trace

section Trace

variable {i : ℕ} {trace obs : List Obs}

theorem LastProduced.append {data : SdoFrame} {since : UInt64} (h : LastProduced i trace data since)
    (hobs : ∀ o ∈ obs, o.produces i = false) : LastProduced i (trace ++ obs) data since := by
  obtain ⟨front, rest, rfl, hrest⟩ := h
  refine ⟨front, rest ++ obs, by simp, ?_⟩
  intro o ho
  exact (List.mem_append.mp ho).elim (hrest o) (hobs o)

theorem LastActive.append {lastUs : UInt64} (h : LastActive i trace lastUs)
    (hobs : ∀ o ∈ obs, o.passive i = true) : LastActive i (trace ++ obs) lastUs := by
  obtain ⟨front, o, rest, rfl, htime, hrest⟩ := h
  refine ⟨front, o, rest ++ obs, by simp, htime, ?_⟩
  intro o ho
  exact (List.mem_append.mp ho).elim (hrest o) (hobs o)

theorem not_produces_of_passive {o : Obs} (h : o.passive i = true) : o.produces i = false := by
  cases o with
  | sdoProduced j data nowUs => simpa [Obs.passive, Obs.produces] using h
  | _ => rfl

theorem passive_of_not_channel {o : Obs} (h : o.channel? ≠ some i) : o.passive i = true := by
  cases o with
  | sdoRequest j request nowUs =>
    have hne : j ≠ i := fun heq => h (congrArg some heq)
    simp [Obs.passive, hne]
  | sdoProduced j data nowUs => simpa [Obs.passive, Obs.channel?] using h
  | _ => rfl

theorem channel?_of_not_channel {o : Obs} (h : o.ofChannel = false) : o.channel? = none := by
  unfold Obs.ofChannel at h
  unfold Obs.channel?
  split <;> simp_all

/-- Passive observations change no times. -/
theorem ChannelTimes.append {ch ch' : SdoChannel} (h : ChannelTimes i ch trace)
    (hpending : ch'.pending = none ∨ ch'.pending = ch.pending)
    (htransfer : ch'.server.transfer = none ∨ ch'.server.transfer = ch.server.transfer)
    (hobs : ∀ o ∈ obs, o.passive i = true) : ChannelTimes i ch' (trace ++ obs) := by
  constructor
  · intro frame since hsome
    rcases hpending with hnone | hsame
    · rw [hnone] at hsome
      cases hsome
    · obtain ⟨data, hlast, hdata⟩ := h.pending frame since (hsame ▸ hsome)
      exact ⟨data, hlast.append fun o ho => not_produces_of_passive (hobs o ho), hdata⟩
  · intro t hsome
    rcases htransfer with hnone | hsame
    · rw [hnone] at hsome
      cases hsome
    · exact (h.transfer t (hsame ▸ hsome)).append hobs

theorem ChannelTimes.congr {ch ch' : SdoChannel} (h : ChannelTimes i ch trace)
    (hpending : ch'.pending = ch.pending) (htransfer : ch'.server.transfer = ch.server.transfer) :
    ChannelTimes i ch' trace := by
  constructor
  · rw [hpending]
    exact h.pending
  · rw [htransfer]
    exact h.transfer

theorem channelTimes_idle {ch : SdoChannel} (hpending : ch.pending = none)
    (htransfer : ch.server.transfer = none) : ChannelTimes i ch trace := by
  constructor
  · intro frame since hsome
    rw [hpending] at hsome
    cases hsome
  · intro t hsome
    rw [htransfer] at hsome
    cases hsome

theorem Excused.append {before after : List Obs} {frame : CanFrame} {reason : DiscardReason}
    (h : Excused i before frame after reason) (rest : List Obs) :
    Excused i before frame (after ++ rest) reason := by
  cases reason with
  | clientAbort => exact h
  | stopOrReset =>
    rcases h with hstop | ⟨between, resetType, tail, rfl, hbetween⟩
    · exact .inl hstop
    · exact .inr ⟨between, resetType, tail ++ rest, by simp, hbetween⟩
  | residence nowUs => exact h
  | inactivity nowUs =>
    obtain ⟨hlast, data, tail, rfl, habort⟩ := h
    exact ⟨hlast, data, tail ++ rest, rfl, habort⟩

/-- New observations need excuses of their own only. -/
theorem AllExcused.append (h : AllExcused trace)
    (hobs : ∀ before i frame reason idle after, obs = before ++ .sdoDiscarded i frame reason idle :: after →
      Excused i (trace ++ before) frame after reason) : AllExcused (trace ++ obs) := by
  intro before i frame reason idle after heq
  rcases List.append_eq_append_iff.mp heq with ⟨front, rfl, hnew⟩ | ⟨front, htrace, hrest⟩
  · exact hobs front i frame reason idle after hnew
  · cases front with
    | nil =>
      have hfirst : Excused i (trace ++ []) frame after reason :=
        hobs [] i frame reason idle after (by simpa using hrest.symm)
      rw [htrace] at hfirst
      simpa using hfirst
    | cons o front =>
      obtain ⟨rfl, rfl⟩ := List.cons.inj hrest
      exact (h before i frame reason idle front htrace).append obs

theorem AllExcused.append_other (h : AllExcused trace) (hobs : ∀ o ∈ obs, o.isDiscard = false) :
    AllExcused (trace ++ obs) := by
  refine h.append ?_
  rintro before j frame reason idle after rfl
  cases hobs (.sdoDiscarded j frame reason idle) (by simp)

theorem not_discard_of_not_channel {o : Obs} (h : o.ofChannel = false) : o.isDiscard = false := by
  cases o <;> first | rfl | cases h

end Trace

/-! ## Steps of a channel -/

section Channel

variable {i : ℕ} {ch ch' : SdoChannel} {b b' : Bus}

theorem mem_discards_iff {reason : DiscardReason} {server : SdoServer} {o : Obs} :
    o ∈ ch.discards i reason server ↔
      ∃ frame since, ch.pending = some (frame, since) ∧
        o = .sdoDiscarded i frame reason server.transfer.isNone := by
  unfold SdoChannel.discards
  cases ch.pending with
  | none => simp
  | some p =>
    obtain ⟨frame, since⟩ := p
    simp

theorem discards_passive {reason : DiscardReason} {server : SdoServer} (j : ℕ) :
    ∀ o ∈ ch.discards i reason server, o.passive j = true := by
  intro o ho
  obtain ⟨frame, since, -, rfl⟩ := mem_discards_iff.mp ho
  rfl

theorem queue_times {trace rest : List Obs} {data : SdoFrame} {nowUs : UInt64}
    (hrest : ∀ o ∈ rest, o.passive i = true)
    (htransfer : ∀ t, ch.server.transfer = some t → t.lastActivityUs = nowUs) :
    ChannelTimes i (ch.queue data nowUs) (trace ++ .sdoProduced i data nowUs :: rest) := by
  constructor
  · intro frame since hsome
    obtain ⟨frame', hnew, heq⟩ := Option.map_eq_some_iff.mp hsome
    cases heq
    exact ⟨data, ⟨trace, rest, rfl, fun o ho => not_produces_of_passive (hrest o ho)⟩,
      (CanFrame.id_of_new hnew).2⟩
  · intro t hsome
    exact ⟨trace, _, rest, rfl, by simp [Obs.sdoTime, htransfer t hsome], hrest⟩

theorem trySend_times {state : NmtState} (h : ChannelTimes i ch b.trace) :
    ChannelTimes i (ch.trySend state i b).1 (ch.trySend state i b).2.trace := by
  rcases trySend_cases state i ch b with heq | ⟨frame, since, result, -, htrace, heq⟩
  · rw [heq]
    exact h
  · have hpassive : ∀ o ∈ [Obs.offer (.sdo i) frame result state], o.passive i = true := by simp [Obs.passive]
    rw [htrace, heq]
    split_ifs
    · exact h.append (.inl rfl) (.inr rfl) hpassive
    · exact h.append (.inr rfl) (.inr rfl) hpassive

theorem trySend_excused {state : NmtState} (h : AllExcused b.trace) :
    AllExcused (ch.trySend state i b).2.trace := by
  rcases trySend_cases state i ch b with heq | ⟨frame, since, result, -, htrace, -⟩
  · rw [heq]
    exact h
  · rw [htrace]
    exact h.append_other (by simp [Obs.isDiscard])

/-- The discard of a channel is excused if its response is. -/
theorem AllExcused.discards {trace rest : List Obs} {reason : DiscardReason} {server : SdoServer}
    (h : AllExcused trace) (hrest : ∀ o ∈ rest, o.isDiscard = false)
    (hexcused : ∀ frame since, ch.pending = some (frame, since) → Excused i trace frame rest reason) :
    AllExcused (trace ++ (ch.discards i reason server ++ rest)) := by
  refine h.append ?_
  intro before j frame r idle after heq
  unfold SdoChannel.discards at heq
  split at heq
  · next frame' since hpending =>
    cases before with
    | nil =>
      obtain ⟨hfirst, rfl⟩ := List.cons.inj heq
      cases hfirst
      rw [List.append_nil]
      exact hexcused _ _ hpending
    | cons o before =>
      obtain ⟨-, rfl⟩ := List.cons.inj heq
      cases hrest (.sdoDiscarded j frame r idle) (by simp)
  · rw [List.nil_append] at heq
    cases hrest (.sdoDiscarded j frame r idle) (by rw [heq]; simp)

theorem channelStep_channel {state : NmtState} (hs : ChannelStep state i ch b ch' b') :
    ∃ obs, b'.trace = b.trace ++ obs ∧ ∀ o ∈ obs, o.channel? = some i := by
  have hdiscards (reason : DiscardReason) (server : SdoServer) :
      ∀ o ∈ ch.discards i reason server, o.channel? = some i := by
    intro o ho
    obtain ⟨frame, since, -, rfl⟩ := mem_discards_iff.mp ho
    rfl
  cases hs with
  | beginPoll nowUs =>
    unfold SdoChannel.beginPoll
    split_ifs
    · exact ⟨_, rfl, hdiscards _ _⟩
    · split
      · refine ⟨_, rfl, ?_⟩
        intro o ho
        rcases List.mem_append.mp ho with ho | ho
        · exact hdiscards _ _ o ho
        · rw [List.mem_singleton.mp ho]
          rfl
      · exact ⟨[], by simp, by simp⟩
  | trySend =>
    rcases trySend_cases state i ch b with heq | ⟨frame, since, result, -, htrace, -⟩
    · exact ⟨[], by simp [heq], by simp⟩
    · exact ⟨_, htrace, by simp [Obs.channel?]⟩
  | nextSegment b free hpoll => exact ⟨_, rfl, by simp [Obs.channel?]⟩

theorem channelStep_times {state : NmtState} (hs : ChannelStep state i ch b ch' b')
    (h : ChannelTimes i ch b.trace) (hexcused : AllExcused b.trace) :
    ChannelTimes i ch' b'.trace ∧ AllExcused b'.trace := by
  cases hs with
  | beginPoll nowUs =>
    unfold SdoChannel.beginPoll
    split_ifs with hold
    · refine ⟨channelTimes_idle rfl rfl, ?_⟩
      have hresidence (frame : CanFrame) (since : UInt64) (hpending : ch.pending = some (frame, since)) :
          Excused i b.trace frame [] (.residence nowUs) := by
        obtain ⟨data, hlast, hdata⟩ := h.pending frame since hpending
        rw [hpending] at hold
        exact ⟨data, since, hlast, hdata, by simpa using hold⟩
      have hdiscards : AllExcused
          (b.trace ++ (ch.discards i (.residence nowUs) ch.server.abortTransfer ++ [])) :=
        hexcused.discards (by simp) hresidence
      rw [List.append_nil] at hdiscards
      exact hdiscards
    · unfold SdoServer.checkTimeout
      cases htransfer : ch.server.transfer with
      | none => exact ⟨h.congr rfl rfl, hexcused⟩
      | some t =>
        dsimp only
        split_ifs with hidle
        · refine ⟨?_, ?_⟩
          · have hqueue (trace : List Obs) (data : SdoFrame) : ChannelTimes i
                (({ ch with server := ch.server.abortTransfer, refusedThisPoll := false } : SdoChannel).queue
                  data nowUs) (trace ++ [.sdoProduced i data nowUs]) :=
              queue_times (by simp) (by rintro t ⟨⟩)
            have htimes := hqueue (b.trace ++ ch.discards i (.inactivity nowUs) ch.server.abortTransfer)
              (encodeAbort t.indexSub.1 t.indexSub.2 .sdoProtocolTimeout)
            rw [List.append_assoc] at htimes
            exact htimes
          · refine hexcused.discards (by simp [Obs.isDiscard]) ?_
            intro frame since _
            exact ⟨⟨t.lastActivityUs, h.transfer t htransfer, hidle⟩, _, [], rfl, rfl⟩
        · exact ⟨h.congr rfl rfl, hexcused⟩
  | trySend => exact ⟨trySend_times h, trySend_excused hexcused⟩
  | @nextSegment nowUs _ server data b free hpoll =>
    refine ⟨queue_times (by simp) ?_, hexcused.append_other (by simp [Obs.isDiscard])⟩
    intro t hsome
    obtain ⟨t', hsome', htime⟩ := pollBlockUpload_activity hpoll
    rw [hsome'] at hsome
    cases hsome
    exact htime

end Channel

/-! ## Requests -/

section Request

variable {m : Machine OD evt dirty} {i : ℕ} {ch ch' : SdoChannel} {b' : Bus} {request : SdoFrame}
  {nowUs : UInt64}

/-- What a request records behind itself. -/
def Machine.requestRest (m : Machine OD evt dirty) (i : ℕ) (ch : SdoChannel) (request : SdoFrame)
    (nowUs : UInt64) : List Obs :=
  (if request.b0 = 0x80 then ch.discards i .clientAbort (m.served ch request nowUs).1.server else []) ++
    (m.served ch request nowUs).1.writes.map fun w => .odWrite (.sdo i) w m.state

theorem requestRest_passive : ∀ o ∈ m.requestRest i ch request nowUs, o.passive i = true := by
  intro o ho
  rcases List.mem_append.mp ho with ho | ho
  · split_ifs at ho
    · exact discards_passive i o ho
    · cases ho
  · obtain ⟨w, -, rfl⟩ := List.mem_map.mp ho
    rfl

theorem request_excused (h : AllExcused m.bus.trace) :
    AllExcused (m.bus.log (m.requestObs i ch request nowUs)).trace := by
  have hrequest : AllExcused (m.bus.trace ++ [.sdoRequest i request nowUs]) :=
    h.append_other (by simp [Obs.isDiscard])
  have hwrites : ∀ o ∈ (m.served ch request nowUs).1.writes.map fun w => Obs.odWrite (.sdo i) w m.state,
      o.isDiscard = false := by
    intro o ho
    obtain ⟨w, -, rfl⟩ := List.mem_map.mp ho
    rfl
  have hrest : AllExcused (m.bus.trace ++ [.sdoRequest i request nowUs] ++ m.requestRest i ch request nowUs) := by
    unfold Machine.requestRest
    split_ifs with habort
    · exact hrequest.discards hwrites fun _ _ _ => ⟨_, request, nowUs, rfl, habort⟩
    · exact hrequest.append_other hwrites
  rw [List.append_assoc] at hrest
  exact hrest

theorem request_discards
    (hcases : ((m.served ch request nowUs).2 = none ∧ ch' = m.requestChannel ch request nowUs ∧
        b' = m.bus.log (m.requestObs i ch request nowUs)) ∨
      ∃ data, (m.served ch request nowUs).2 = some data ∧
        (ch', b') = ((m.requestChannel ch request nowUs).queue data nowUs).trySend m.state i
          ((m.bus.log (m.requestObs i ch request nowUs)).log [.sdoProduced i data nowUs])) :
    ∃ obs, b'.trace = m.bus.trace ++ obs ∧ ∀ o ∈ obs, o.channel? = none ∨ o.channel? = some i := by
  have hrequest : ∀ o ∈ m.requestObs i ch request nowUs, o.channel? = none ∨ o.channel? = some i := by
    intro o ho
    rcases List.mem_append.mp ho with ho | ho
    · rcases List.mem_cons.mp ho with rfl | ho
      · exact .inr rfl
      · split_ifs at ho
        · obtain ⟨frame, since, -, rfl⟩ := mem_discards_iff.mp ho
          exact .inr rfl
        · cases ho
    · obtain ⟨w, -, rfl⟩ := List.mem_map.mp ho
      exact .inl rfl
  rcases hcases with ⟨-, rfl, rfl⟩ | ⟨data, -, hsend⟩
  · exact ⟨_, rfl, hrequest⟩
  · have hstep : ChannelStep m.state i ((m.requestChannel ch request nowUs).queue data nowUs)
        ((m.bus.log (m.requestObs i ch request nowUs)).log [.sdoProduced i data nowUs]) _ _ := .trySend _ _
    rw [← hsend] at hstep
    obtain ⟨obs, htrace, hobs⟩ := channelStep_channel hstep
    refine ⟨m.requestObs i ch request nowUs ++ ([.sdoProduced i data nowUs] ++ obs), ?_, ?_⟩
    · rw [htrace]
      simp [Bus.log]
    · intro o ho
      rcases List.mem_append.mp ho with ho | ho
      · exact hrequest o ho
      · rcases List.mem_append.mp ho with ho | ho
        · rw [List.mem_singleton.mp ho]
          exact .inr rfl
        · exact .inr (hobs o ho)

theorem request_times (h : ChannelTimes i ch m.bus.trace) (hexcused : AllExcused m.bus.trace)
    (free : request.b0 = 0x80 ∨ ch.pending = none)
    (hcases : ((m.served ch request nowUs).2 = none ∧ ch' = m.requestChannel ch request nowUs ∧
        b' = m.bus.log (m.requestObs i ch request nowUs)) ∨
      ∃ data, (m.served ch request nowUs).2 = some data ∧
        (ch', b') = ((m.requestChannel ch request nowUs).queue data nowUs).trySend m.state i
          ((m.bus.log (m.requestObs i ch request nowUs)).log [.sdoProduced i data nowUs])) :
    ChannelTimes i ch' b'.trace ∧ AllExcused b'.trace := by
  have hactivity : ActivityStep ch.server request nowUs (m.served ch request nowUs).1.server.transfer
      (m.served ch request nowUs).2 :=
    processWithContext_activity (⟨ch.server, m.node.od, m.node.eventQueue, []⟩ : SdoState OD evt) request
      (m.node.sdoContext nowUs)
  have hempty : (m.requestChannel ch request nowUs).pending = none := by
    unfold Machine.requestChannel
    dsimp only
    split_ifs with habort
    · rfl
    · exact free.resolve_left habort
  rcases hcases with ⟨hsilent, rfl, rfl⟩ | ⟨data, hresponse, hsend⟩
  · refine ⟨?_, request_excused hexcused⟩
    constructor
    · intro frame since hsome
      rw [hempty] at hsome
      cases hsome
    · intro t hsome
      rcases hactivity.of_transfer hsome with hactive | ⟨hconfirm, hold⟩
      · exact ⟨m.bus.trace, .sdoRequest i request nowUs, m.requestRest i ch request nowUs, rfl,
          by simp [Obs.sdoTime, hactive], requestRest_passive⟩
      · refine (h.transfer t hold).append ?_
        intro o ho
        rcases List.mem_cons.mp ho with rfl | ho
        · simp [Obs.passive, hconfirm]
        · exact requestRest_passive o ho
  · have hqueue : ChannelTimes i ((m.requestChannel ch request nowUs).queue data nowUs)
        ((m.bus.log (m.requestObs i ch request nowUs)).log [.sdoProduced i data nowUs]).trace :=
      queue_times (by simp) fun t hsome => hactivity.of_response hsome hresponse
    have hproduced : AllExcused
        ((m.bus.log (m.requestObs i ch request nowUs)).log [.sdoProduced i data nowUs]).trace :=
      (request_excused hexcused).append_other (by simp [Obs.isDiscard])
    have htimes : ChannelTimes i (ch', b').1 (ch', b').2.trace := by
      rw [hsend]
      exact trySend_times hqueue
    have hexcused' : AllExcused (ch', b').2.trace := by
      rw [hsend]
      exact trySend_excused hproduced
    exact ⟨htimes, hexcused'⟩

end Request

/-! ## Steps of a node -/

/-- What a step does to the SDO channels. -/
inductive SdoStep (m m' : Machine OD evt dirty) : Prop
  | other {obs : List Obs} (hsdo : m'.node.sdo = m.node.sdo)
    (htrace : m'.bus.trace = m.bus.trace ++ obs) (hobs : ∀ o ∈ obs, o.ofChannel = false)
  | channel (i : ℕ) {ch ch' : SdoChannel} (hch : m.node.sdo[i]? = some ch)
    (hs : ChannelStep m.state i ch m.bus ch' m'.bus) (hsdo : m'.node.sdo = m.node.sdo.set i ch')
  | request (i : ℕ) {ch : SdoChannel} (request : SdoFrame) (nowUs : UInt64)
    (hch : m.node.sdo[i]? = some ch) (free : request.b0 = 0x80 ∨ ch.pending = none)
    (hr : (m.answerRequest i ch request nowUs).1.resync
      (m.answerRequest i ch request nowUs).2 = some m')
  | stop (old : NmtState) (pdoDownload : Bool) (hsdo : m'.node.sdo = m.node.sdo.map SdoChannel.abort)
    (htrace : m'.bus.trace = m.bus.trace ++ .nmt old .stopped pdoDownload :: abortObs m.node.sdo)
  | reset (resetType : ResetType) (hsdo : m'.node.sdo = m.node.sdo.map SdoChannel.abort)
    (htrace : m'.bus.trace = m.bus.trace ++ (abortObs m.node.sdo ++ [.reset resetType]))

theorem sdoStep_of_step {allowed : (OD → OD) → Prop} {m m' : Machine OD evt dirty}
    (hs : Step allowed m m') : SdoStep m m' := by
  have hsilent {m' : Machine OD evt dirty} (hsdo : m'.node.sdo = m.node.sdo)
      (htrace : m'.bus.trace = m.bus.trace) : SdoStep m m' :=
    .other hsdo (htrace.trans (List.append_nil _).symm) (by simp)
  cases hs with
  | quiet hq =>
    obtain ⟨obs, htrace, hobs⟩ := hq.trace
    refine .other hq.sdo htrace ?_
    intro o ho
    obtain ⟨kind, frame, result, rfl, rfl | ⟨rfl, -⟩ | ⟨rfl, -⟩ | ⟨rfl, -⟩⟩ := hobs o ho
    · rfl
    · rfl
    · rfl
    · rfl
  | boot nowUs hb =>
    obtain ⟨heartbeat, frame, result, ⟨hnode, htrace⟩ | ⟨nmt, -, hnode, htrace⟩⟩ :=
      boot_cases hb nowUs
    · exact .other (by rw [hnode]) htrace (by simp [Obs.ofChannel])
    · exact .other (by rw [hnode]) htrace (by simp [Obs.ofChannel])
  | channel i hch hstep => exact .channel i hch hstep rfl
  | request i request nowUs hch serves free hr => exact .request i request nowUs hch free hr
  | stateChanged s hnew hne hold =>
    have htrace := stateChanged_trace m s
    have hsdo := stateChanged_sdo m s
    unfold Machine.stateChangedObs at htrace
    split_ifs at htrace hsdo with hstopped
    · rw [hstopped] at hsdo htrace ⊢
      exact .stop _ _ hsdo htrace
    · exact .other hsdo htrace (by simp [Obs.ofChannel])
  | reset resetType hr =>
    have hdone := requestReset_done hr
    exact .reset resetType hdone.sdo hdone.trace
  | receiveRpdo i frame nowUs operational hslot =>
    unfold Machine.receiveRpdo
    dsimp only
    split_ifs
    · exact .other rfl rfl (by simp)
    · exact .other rfl rfl (by simp [Obs.ofChannel])
    · exact .other rfl rfl (by simp [Obs.ofChannel])
  | pulse nowUs operational =>
    obtain ⟨obs, htrace, hobs⟩ := sendPulse_trace m.applyPulse nowUs
    refine .other rfl (htrace.trans (List.append_assoc _ _ _)) ?_
    intro o ho
    rcases List.mem_append.mp ho with ho | ho
    · rcases List.mem_append.mp ho with ho | ho
      · obtain ⟨i, slot, frame, rfl, -⟩ := mem_appliedObs ho
        rfl
      · obtain ⟨w, -, rfl⟩ := List.mem_map.mp ho
        rfl
    · rcases List.mem_append.mp ho with ho | ho
      · obtain ⟨i, slot, rfl, -⟩ := mem_sampledObs ho
        rfl
      · rcases List.mem_cons.mp ho with rfl | ho
        · rfl
        · obtain ⟨frame, -, result, rfl⟩ := hobs o ho
          rfl
  | retry nowUs =>
    rcases retryPendingSyncTpdo_cases m nowUs with heq | heq | ⟨-, last, heq⟩
    · exact hsilent (by rw [heq]) (by rw [heq])
    · exact hsilent (by rw [heq]) (by rw [heq])
    · obtain ⟨obs, htrace, hobs⟩ :=
        transmitAll_trace m.state .syncTpdo m.node.pendingSyncTpdo m.bus
      refine .other (by rw [heq]) (by rw [heq, htrace]) ?_
      intro o ho
      obtain ⟨frame, -, result, rfl⟩ := hobs o ho
      rfl
  | deadlines nowUs =>
    rcases checkDeadlines_cases m nowUs with ⟨-, queue, count, heq⟩ | ⟨-, heq⟩
    · refine .other (by rw [heq]) (by rw [heq]; rfl) ?_
      intro o ho
      obtain ⟨p, -, rfl⟩ := List.mem_map.mp ho
      rfl
    · exact hsilent (by rw [heq]; rfl) (by rw [heq])
  | pollTpdo nowUs =>
    unfold Machine.pollTpdo
    split_ifs
    · obtain ⟨obs, htrace, hobs⟩ := pollWith_trace m.node.od nowUs m.node.dirtySet m.state 0
        m.node.tpdo.slots (m.bus.log (latchObs TpdoSlot.isEventDriven m.node.dirtySet
          m.node.tpdo.slots))
      refine .other rfl (htrace.trans (List.append_assoc _ _ _)) ?_
      intro o ho
      rcases List.mem_append.mp ho with ho | ho
      · obtain ⟨i, addr, rfl⟩ := mem_latchObs ho
        rfl
      · obtain ⟨k, slot, -, application, frame, result, rfl, -⟩ := hobs o ho
        rfl
    · exact hsilent rfl rfl
  | latchSyncEvents =>
    refine .other rfl rfl ?_
    intro o ho
    obtain ⟨i, addr, rfl⟩ := mem_latchObs ho
    rfl
  | clearDirty => exact hsilent rfl rfl
  | notifyChanged index subindex =>
    refine .other rfl rfl ?_
    intro o ho
    rcases List.mem_cons.mp ho with rfl | ho
    · rfl
    · obtain ⟨i, addr, rfl⟩ := mem_latchObs ho
      rfl
  | odMut f _ =>
    refine .other rfl rfl ?_
    intro o ho
    obtain ⟨⟨slot, i⟩, -, ho⟩ := List.mem_flatMap.mp ho
    rcases List.mem_cons.mp ho with rfl | ho
    · rfl
    · split_ifs at ho
      · rw [List.mem_singleton] at ho
        rw [ho]
        rfl
      · cases ho
  | storeErrorRegister emcy _ => exact hsilent rfl rfl

/-! ## Runs -/

section Runs

variable {m m' : Machine OD evt dirty}

omit [ObjectDictionary OD] in
/-- Observations of one channel alone leave the times of the others. -/
theorem DiscardInv.of_set (h : DiscardInv m) {i : ℕ} {ch' : SdoChannel} {obs : List Obs}
    (hsdo : m'.node.sdo = m.node.sdo.set i ch') (htrace : m'.bus.trace = m.bus.trace ++ obs)
    (hobs : ∀ o ∈ obs, o.channel? = none ∨ o.channel? = some i)
    (htimes : ChannelTimes i ch' m'.bus.trace) (hexcused : AllExcused m'.bus.trace) : DiscardInv m' := by
  refine ⟨?_, hexcused⟩
  intro j ch hch
  rw [hsdo, List.getElem?_set] at hch
  split_ifs at hch with hij
  · cases hch
    subst hij
    exact htimes
  · rw [htrace]
    refine (h.times j ch hch).append (.inr rfl) (.inr rfl) ?_
    intro o ho
    apply passive_of_not_channel
    rcases hobs o ho with hnone | hown
    · rw [hnone]
      exact Option.some_ne_none j |>.symm
    · rw [hown]
      exact fun heq => hij (Option.some.inj heq)

omit [ObjectDictionary OD] in
theorem DiscardInv.of_abort (hsdo : m'.node.sdo = m.node.sdo.map SdoChannel.abort)
    (hexcused : AllExcused m'.bus.trace) : DiscardInv m' := by
  refine ⟨?_, hexcused⟩
  intro i ch hch
  rw [hsdo, List.getElem?_map] at hch
  obtain ⟨old, -, rfl⟩ := Option.map_eq_some_iff.mp hch
  exact channelTimes_idle rfl rfl

theorem mem_abortObs_reason {sdo : List SdoChannel} {o : Obs} (ho : o ∈ abortObs sdo) :
    ∃ i frame idle, o = .sdoDiscarded i frame .stopOrReset idle := by
  obtain ⟨l, hl, ho⟩ := List.mem_flatten.mp ho
  obtain ⟨⟨ch, i⟩, -, rfl⟩ := List.mem_map.mp hl
  obtain ⟨frame, since, -, rfl⟩ := mem_discards_iff.mp ho
  exact ⟨i, frame, _, rfl⟩

theorem abortObs_isDiscard {sdo : List SdoChannel} : ∀ o ∈ abortObs sdo, o.isDiscard = true := by
  intro o ho
  obtain ⟨i, frame, idle, rfl⟩ := mem_abortObs_reason ho
  rfl

theorem stop_excused {trace : List Obs} (h : AllExcused trace) (old : NmtState) (pdoDownload : Bool)
    (sdo : List SdoChannel) :
    AllExcused (trace ++ .nmt old .stopped pdoDownload :: abortObs sdo) := by
  refine h.append ?_
  intro before i frame reason idle after heq
  cases before with
  | nil => cases (List.cons.inj heq).1
  | cons o before =>
    obtain ⟨rfl, hsplit⟩ := List.cons.inj heq
    have hmem : .sdoDiscarded i frame reason idle ∈ abortObs sdo := by
      rw [hsplit]
      simp
    obtain ⟨j, frame', idle', hreason⟩ := mem_abortObs_reason hmem
    cases hreason
    refine .inl ⟨trace, old, pdoDownload, before, rfl, ?_⟩
    intro o ho
    exact abortObs_isDiscard o (by rw [hsplit]; simp [ho])

theorem reset_excused {trace : List Obs} (h : AllExcused trace) (resetType : ResetType)
    (sdo : List SdoChannel) : AllExcused (trace ++ (abortObs sdo ++ [.reset resetType])) := by
  refine h.append ?_
  intro before i frame reason idle after heq
  rcases List.append_eq_append_iff.mp heq with ⟨front, -, hlast⟩ | ⟨front, hfront, hrest⟩
  · have hmem : .sdoDiscarded i frame reason idle ∈ [Obs.reset resetType] := by
      rw [hlast]
      simp
    cases List.mem_singleton.mp hmem
  · cases front with
    | nil => cases (List.cons.inj hrest).1
    | cons o between =>
      obtain ⟨rfl, rfl⟩ := List.cons.inj hrest
      have hmem : .sdoDiscarded i frame reason idle ∈ abortObs sdo := by
        rw [hfront]
        simp
      obtain ⟨j, frame', idle', hreason⟩ := mem_abortObs_reason hmem
      cases hreason
      refine .inr ⟨between, resetType, [], rfl, ?_⟩
      exact fun o ho => abortObs_isDiscard o (by rw [hfront]; simp [ho])

/-- Every step has its excuses. -/
theorem discardInv_step {allowed : (OD → OD) → Prop} (m m' : Machine OD evt dirty) (h : DiscardInv m)
    (hs : Step allowed m m') : DiscardInv m' := by
  cases sdoStep_of_step hs with
  | other hsdo htrace hobs =>
    constructor
    · intro i ch hch
      rw [hsdo] at hch
      rw [htrace]
      refine (h.times i ch hch).append (.inr rfl) (.inr rfl) ?_
      intro o ho
      apply passive_of_not_channel
      rw [channel?_of_not_channel (hobs o ho)]
      exact (Option.some_ne_none i).symm
    · rw [htrace]
      exact h.excused.append_other fun o ho => not_discard_of_not_channel (hobs o ho)
  | channel i hch hstep hsdo =>
    obtain ⟨htimes, hexcused⟩ := channelStep_times hstep (h.times i _ hch) h.excused
    obtain ⟨obs, htrace, hobs⟩ := channelStep_channel hstep
    exact h.of_set hsdo htrace (fun o ho => .inr (hobs o ho)) htimes hexcused
  | request i request nowUs hch free hr =>
    obtain ⟨hread, hbus⟩ := resync_reread hr
    obtain ⟨ch', b', hsdo, hb, hcases⟩ := answerRequest_cases m i _ request nowUs
    obtain ⟨htimes, hexcused⟩ := request_times (h.times i _ hch) h.excused free hcases
    obtain ⟨obs, htrace, hobs⟩ := request_discards hcases
    rw [← hb, ← hbus] at htimes hexcused htrace
    exact h.of_set (hread.sdo.trans hsdo) htrace hobs htimes hexcused
  | stop old pdoDownload hsdo htrace =>
    refine .of_abort hsdo ?_
    rw [htrace]
    exact stop_excused h.excused old pdoDownload _
  | reset resetType hsdo htrace =>
    refine .of_abort hsdo ?_
    rw [htrace]
    exact reset_excused h.excused resetType _

theorem discardInv_start {config : NodeConfig} {od : OD} {n : Node OD evt dirty}
    (h : Node.new config od = some n) : DiscardInv (Machine.start n) := by
  obtain ⟨od', hread⟩ := new_reread h
  constructor
  · intro i ch hch
    have hmem : ch ∈ n.sdo := List.mem_of_getElem? hch
    rw [hread.sdo] at hmem
    rcases List.mem_cons.mp hmem with rfl | hmem
    · exact channelTimes_idle rfl rfl
    · obtain ⟨s, -, rfl⟩ := List.mem_map.mp hmem
      exact channelTimes_idle rfl rfl
  · intro before i frame reason idle after heq
    cases before <;> cases heq

end Runs

end Canopen
