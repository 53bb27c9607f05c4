import Canopen.Lib.Mailbox
import Canopen.Node.SdoDiscards

/-!
# SDO responses under back-pressure

Between an SDO server and the transport stands a mailbox for one response. The
observations of a channel are read as events of that mailbox, and `MailInv` says
that its automaton accepts them: responses are neither lost nor duplicated nor
reordered, apart from those given up together with their transfer.
-/

namespace Canopen

open Mailbox Pdo Sdo

variable {OD : Type} [ObjectDictionary OD] {evt dirty : ℕ}

/-! ## The mailbox of a channel -/

/-- A response as it appears on the bus: COB-ID and data. -/
def CanFrame.message (frame : CanFrame) : UInt16 × List UInt8 := (frame.id, frame.data)

/-- What an observation means for the mailbox of channel `i`, whose responses go out on
COB-ID `cob`. A request other than an abort must wait for an empty mailbox. -/
def mailEvent (i : ℕ) (cob : UInt16) : Obs → Option (Event (UInt16 × List UInt8))
  | .sdoProduced j data _ => if j = i then some (.put (cob, data.toList)) else none
  | .offer (.sdo j) frame result _ =>
    if j = i then
      some (if result = .accepted then .delivered frame.message else .refused frame.message)
    else none
  | .sdoDiscarded j frame _ _ => if j = i then some (.dropped frame.message) else none
  | .sdoRequest j request _ => if j = i ∧ request.b0 ≠ 0x80 then some .needsEmpty else none
  | _ => none

def mailEvents (i : ℕ) (cob : UInt16) (trace : List Obs) : List (Event (UInt16 × List UInt8)) :=
  trace.filterMap (mailEvent i cob)

/-- The response in the mailbox. -/
def SdoChannel.message (ch : SdoChannel) : Option (UInt16 × List UInt8) :=
  ch.pending.map (·.1.message)

/-- The automaton accepts what was observed of channel `i`. -/
def ChannelMail (i : ℕ) (ch : SdoChannel) (trace : List Obs) : Prop :=
  Accepts (mailEvents i ch.cobTx trace) ch.message

/-- Every channel with an 11-bit response COB-ID keeps its mailbox, and a response is
given up only when no transfer is left. -/
structure MailInv (m : Machine OD evt dirty) : Prop where
  mail : ∀ i ch, m.node.sdo[i]? = some ch → ch.cobTx ≤ 0x7FF → ChannelMail i ch m.bus.trace
  idle : ∀ i frame reason idle, .sdoDiscarded i frame reason idle ∈ m.bus.trace → idle = true

section Events

variable {i j : ℕ} {cob : UInt16}

theorem mailEvents_append (i : ℕ) (cob : UInt16) (l l' : List Obs) :
    mailEvents i cob (l ++ l') = mailEvents i cob l ++ mailEvents i cob l' :=
  List.filterMap_append

theorem mailEvents_of_not_channel {obs : List Obs} (h : ∀ o ∈ obs, o.ofChannel = false) :
    mailEvents i cob obs = [] := by
  apply List.filterMap_eq_nil_iff.mpr
  intro o ho
  have hno := h o ho
  unfold Obs.ofChannel at hno
  unfold mailEvent
  split <;> simp_all

theorem mailEvents_of_ne {obs : List Obs} (h : ∀ o ∈ obs, o.channel? ≠ some i) :
    mailEvents i cob obs = [] := by
  apply List.filterMap_eq_nil_iff.mpr
  intro o ho
  have hne := h o ho
  unfold Obs.channel? at hne
  unfold mailEvent
  split <;> simp_all

theorem ChannelMail.other {ch ch' : SdoChannel} {trace obs : List Obs} (h : ChannelMail i ch trace)
    (hmessage : ch'.message = ch.message) (hcob : ch'.cobTx = ch.cobTx)
    (hobs : mailEvents i ch.cobTx obs = []) : ChannelMail i ch' (trace ++ obs) := by
  unfold ChannelMail at h ⊢
  rw [hmessage, hcob, mailEvents_append, hobs, List.append_nil]
  exact h

theorem ChannelMail.then_events {ch ch' : SdoChannel} {trace obs : List Obs}
    (h : ChannelMail i ch trace) (hcob : ch'.cobTx = ch.cobTx)
    (hobs : (mailEvents i ch.cobTx obs).foldlM step ch.message = some ch'.message) :
    ChannelMail i ch' (trace ++ obs) := by
  unfold ChannelMail at h ⊢
  rw [hcob, mailEvents_append]
  exact accepts_append h hobs

end Events

/-! ## Steps of a channel -/

section Channel

variable {i : ℕ} {ch : SdoChannel}

theorem queue_message (data : SdoFrame) (nowUs : UInt64) (hcob : ch.cobTx ≤ 0x7FF) :
    (ch.queue data nowUs).message = some (ch.cobTx, data.toList) := by
  have hlen : data.toList.length ≤ 8 := by simp [SdoFrame.toList]
  unfold SdoChannel.queue SdoChannel.message
  rw [CanFrame.new_eq_some hcob hlen]
  rfl

theorem discards_events (reason : DiscardReason) (server : SdoServer) :
    (mailEvents i ch.cobTx (ch.discards i reason server)).foldlM step ch.message = some none := by
  unfold SdoChannel.discards SdoChannel.message
  cases hp : ch.pending with
  | none => rfl
  | some p => simp [mailEvents, mailEvent, step]

theorem trySend_mail {state : NmtState} {b : Bus} (h : ChannelMail i ch b.trace) :
    ChannelMail i (ch.trySend state i b).1 (ch.trySend state i b).2.trace := by
  rcases trySend_cases state i ch b with heq | ⟨frame, since, result, hpending, htrace, heq⟩
  · rw [heq]
    exact h
  · rw [htrace, heq]
    by_cases hacc : result = .accepted
    · rw [if_pos hacc]
      refine h.then_events rfl ?_
      simp [mailEvents, mailEvent, hacc, step, SdoChannel.message, hpending]
    · rw [if_neg hacc]
      refine h.then_events rfl ?_
      simp [mailEvents, mailEvent, hacc, step, SdoChannel.message, hpending]

theorem queue_mail {trace obs : List Obs} {data : SdoFrame} (nowUs : UInt64)
    (h : ChannelMail i ch trace) (hcob : ch.cobTx ≤ 0x7FF)
    (hobs : (mailEvents i ch.cobTx obs).foldlM step ch.message = some none) :
    ChannelMail i (ch.queue data nowUs) (trace ++ (obs ++ [.sdoProduced i data nowUs])) := by
  refine h.then_events rfl ?_
  rw [mailEvents_append, List.foldlM_append, hobs, queue_message data nowUs hcob]
  simp [mailEvents, mailEvent, step]

theorem beginPoll_mail {nowUs : UInt64} {b : Bus} (h : ChannelMail i ch b.trace)
    (hcob : ch.cobTx ≤ 0x7FF) :
    ChannelMail i (ch.beginPoll nowUs i b).1 (ch.beginPoll nowUs i b).2.trace := by
  unfold SdoChannel.beginPoll
  split_ifs
  · exact h.then_events rfl (discards_events _ _)
  · split
    · next server data _ =>
      have hserver : ChannelMail i { ch with server := server, refusedThisPoll := false } b.trace := h
      exact queue_mail nowUs hserver hcob (discards_events _ _)
    · exact h

theorem channelStep_mail {state : NmtState} {ch' : SdoChannel} {b b' : Bus}
    (hs : ChannelStep state i ch b ch' b') (h : ChannelMail i ch b.trace)
    (hcob : ch.cobTx ≤ 0x7FF) : ChannelMail i ch' b'.trace := by
  cases hs with
  | beginPoll nowUs => exact beginPoll_mail h hcob
  | trySend => exact trySend_mail h
  | @nextSegment nowUs _ server data b free hpoll =>
    have hserver : ChannelMail i { ch with server := server } b.trace := h
    have hempty : (mailEvents i ch.cobTx []).foldlM step ch.message = some none := by
      simp [mailEvents, SdoChannel.message, free]
    exact queue_mail nowUs hserver hcob hempty

/-- An observation of channel `i` that gives no response up while a transfer is left. -/
def IdleObs (i : ℕ) (o : Obs) : Prop :=
  o.channel? = some i ∧ ∀ j frame reason idle, o = .sdoDiscarded j frame reason idle → idle = true

theorem discards_idle {reason : DiscardReason} {server : SdoServer}
    (hidle : server.transfer = none) : ∀ o ∈ ch.discards i reason server, IdleObs i o := by
  intro o ho
  unfold SdoChannel.discards at ho
  split at ho
  · rw [List.mem_singleton] at ho
    subst ho
    refine ⟨rfl, ?_⟩
    intro j frame r idle heq
    cases heq
    simp [hidle]
  · cases ho

/-- A channel gives a response up only when no transfer is left. -/
theorem channelStep_idleObs {state : NmtState} {ch' : SdoChannel} {b b' : Bus}
    (hs : ChannelStep state i ch b ch' b') :
    ∃ obs, b'.trace = b.trace ++ obs ∧ ∀ o ∈ obs, IdleObs i o := by
  cases hs with
  | beginPoll nowUs =>
    unfold SdoChannel.beginPoll
    split_ifs
    · exact ⟨_, rfl, discards_idle rfl⟩
    · unfold SdoServer.checkTimeout
      cases htr : ch.server.transfer with
      | none => exact ⟨[], by simp, by simp⟩
      | some t =>
        dsimp only
        split_ifs
        · refine ⟨_, rfl, ?_⟩
          intro o ho
          rcases List.mem_append.mp ho with ho | ho
          · exact discards_idle rfl o ho
          · rw [List.mem_singleton] at ho
            subst ho
            exact ⟨rfl, by simp⟩
        · exact ⟨[], by simp, by simp⟩
  | trySend =>
    rcases trySend_cases state i ch b with heq | ⟨frame, since, result, -, htrace, -⟩
    · exact ⟨[], by simp [heq], by simp⟩
    · refine ⟨_, htrace, ?_⟩
      intro o ho
      rw [List.mem_singleton] at ho
      subst ho
      exact ⟨rfl, by simp⟩
  | nextSegment b free hpoll =>
    refine ⟨_, rfl, ?_⟩
    intro o ho
    rw [List.mem_singleton] at ho
    subst ho
    exact ⟨rfl, by simp⟩

end Channel

/-! ## Requests -/

section Request

theorem processWithContext_clientAbort {cap : ℕ} (s : SdoState OD cap) {request : SdoFrame}
    (h : request.b0 = 0x80) (ctx : SdoContext) :
    (s.processWithContext request ctx).1.server.transfer = none := by
  have hdispatch : (s.dispatch request ctx) = (s.setTransfer none, none) := by
    unfold SdoState.dispatch
    rw [h]
    rfl
  unfold SdoState.processWithContext
  rw [hdispatch]
  simp [h, SdoState.setTransfer]

variable {m m' : Machine OD evt dirty} {i : ℕ} {ch : SdoChannel} {request : SdoFrame}
  {nowUs : UInt64}

/-- What a request does to the mailbox before it is answered: nothing, because it had to
be empty, or an abort empties it. -/
theorem requestHead_events (free : request.b0 = 0x80 ∨ ch.pending = none) (cob : UInt16)
    (hcob : cob = ch.cobTx) :
    (mailEvents i cob (m.requestObs i ch request nowUs)).foldlM step ch.message = some none := by
  have hwrites : mailEvents i cob ((m.served ch request nowUs).1.writes.map
      fun w => Obs.odWrite (.sdo i) w m.state) = [] := by
    apply mailEvents_of_not_channel
    intro o ho
    obtain ⟨w, -, rfl⟩ := List.mem_map.mp ho
    rfl
  rw [Machine.requestObs, mailEvents_append, hwrites, List.append_nil, Machine.requestHead]
  by_cases habort : request.b0 = 0x80
  · have hskip : mailEvent i cob (.sdoRequest i request nowUs) = none := by simp [mailEvent, habort]
    rw [if_pos habort, mailEvents, List.filterMap_cons, hskip, hcob]
    exact discards_events _ _
  · have hempty : ch.message = none := by
      rw [SdoChannel.message, free.resolve_left habort]
      rfl
    rw [if_neg habort, hempty]
    simp [mailEvents, mailEvent, habort, step]

theorem request_mail (h : ChannelMail i ch m.bus.trace) (hcob : ch.cobTx ≤ 0x7FF)
    (free : request.b0 = 0x80 ∨ ch.pending = none) {ch' : SdoChannel} {b' : Bus}
    (hcases : ((m.served ch request nowUs).2 = none ∧ ch' = m.requestChannel ch request nowUs ∧
        b' = m.bus.log (m.requestObs i ch request nowUs)) ∨
      ∃ data, (m.served ch request nowUs).2 = some data ∧
        (ch', b') = ((m.requestChannel ch request nowUs).queue data nowUs).trySend m.state i
          ((m.bus.log (m.requestObs i ch request nowUs)).log [.sdoProduced i data nowUs])) :
    ChannelMail i ch' b'.trace := by
  have hevents : (mailEvents i ch.cobTx (m.requestObs i ch request nowUs)).foldlM step ch.message =
      some none := requestHead_events free ch.cobTx rfl
  have hempty : (m.requestChannel ch request nowUs).message = none := by
    unfold Machine.requestChannel SdoChannel.message
    rcases free with habort | hnone
    · simp [habort]
    · simp [hnone]
  have hrequest : ChannelMail i (m.requestChannel ch request nowUs)
      (m.bus.trace ++ m.requestObs i ch request nowUs) := by
    refine h.then_events rfl ?_
    rw [hempty]
    exact hevents
  rcases hcases with ⟨-, rfl, rfl⟩ | ⟨data, -, hsend⟩
  · exact hrequest
  · have hnone : (mailEvents i (m.requestChannel ch request nowUs).cobTx []).foldlM step
        (m.requestChannel ch request nowUs).message = some none := by
      rw [hempty]
      rfl
    have hqueue : ChannelMail i ((m.requestChannel ch request nowUs).queue data nowUs)
        ((m.bus.log (m.requestObs i ch request nowUs)).log [.sdoProduced i data nowUs]).trace :=
      queue_mail nowUs hrequest hcob hnone
    have hstep : ChannelStep m.state i ((m.requestChannel ch request nowUs).queue data nowUs)
        ((m.bus.log (m.requestObs i ch request nowUs)).log [.sdoProduced i data nowUs]) _ _ :=
      .trySend _ _
    rw [← hsend] at hstep
    exact channelStep_mail hstep hqueue hcob

theorem requestObs_idle : ∀ o ∈ m.requestObs i ch request nowUs,
    IdleObs i o ∨ o.ofChannel = false := by
  intro o ho
  rcases List.mem_append.mp ho with ho | ho
  · rcases List.mem_cons.mp ho with rfl | ho
    · exact .inl ⟨rfl, by simp⟩
    · split_ifs at ho with habort
      · exact .inl (discards_idle (processWithContext_clientAbort _ habort _) o ho)
      · cases ho
  · obtain ⟨w, -, rfl⟩ := List.mem_map.mp ho
    exact .inr rfl

end Request

/-! ## Aborting all channels -/

/-- The part of one channel in what is observed when all are aborted. -/
theorem abortObs_split {sdo : List SdoChannel} {i : ℕ} {ch : SdoChannel} (hch : sdo[i]? = some ch) :
    ∃ pre post, abortObs sdo = pre ++ (ch.discards i .stopOrReset ch.server.abortTransfer ++ post) ∧
      (∀ o ∈ pre, o.channel? ≠ some i) ∧ ∀ o ∈ post, o.channel? ≠ some i := by
  obtain ⟨hi, rfl⟩ := List.getElem?_eq_some_iff.mp hch
  have hother {l : List (SdoChannel × ℕ)} (hl : ∀ p ∈ l, p.2 ≠ i) :
      ∀ o ∈ (l.map fun p => p.1.discards p.2 .stopOrReset p.1.server.abortTransfer).flatten,
        o.channel? ≠ some i := by
    intro o ho heq
    obtain ⟨obs, hobs, ho⟩ := List.mem_flatten.mp ho
    obtain ⟨p, hp, rfl⟩ := List.mem_map.mp hobs
    obtain ⟨frame, since, -, rfl⟩ := mem_discards_iff.mp ho
    exact hl p hp (Option.some.inj heq)
  refine ⟨_, _, ?_, hother (l := (sdo.take i).zipIdx) ?_,
    hother (l := (sdo.drop (i + 1)).zipIdx (i + 1)) ?_⟩
  · have hsplit : sdo.zipIdx =
        (sdo.take i).zipIdx ++ (sdo[i], i) :: (sdo.drop (i + 1)).zipIdx (i + 1) := by
      have hlen : (sdo.take i).length = i := by
        rw [List.length_take]
        omega
      calc sdo.zipIdx = (sdo.take i ++ sdo[i] :: sdo.drop (i + 1)).zipIdx := by
            rw [List.cons_getElem_drop_succ, List.take_append_drop]
        _ = _ := by
            rw [List.zipIdx_append, List.zipIdx_cons, hlen, Nat.zero_add]
    rw [abortObs, hsplit]
    simp
  · intro p hp
    have hlt := (List.mem_zipIdx hp).2.1
    rw [List.length_take] at hlt
    omega
  · intro p hp
    have hle := (List.mem_zipIdx hp).1
    omega

theorem abort_mail {sdo : List SdoChannel} {i : ℕ} {ch : SdoChannel} (hch : sdo[i]? = some ch)
    {trace : List Obs} (h : ChannelMail i ch trace) :
    ChannelMail i ch.abort (trace ++ abortObs sdo) := by
  obtain ⟨pre, post, heq, hpre, hpost⟩ := abortObs_split hch
  refine h.then_events rfl ?_
  rw [heq, mailEvents_append, mailEvents_append, mailEvents_of_ne hpre, mailEvents_of_ne hpost,
    List.nil_append, List.append_nil]
  exact discards_events _ _

/-! ## Runs -/

section Runs

variable {m m' : Machine OD evt dirty}

omit [ObjectDictionary OD] in
theorem MailInv.of_sdo_eq (h : MailInv m) (hsdo : m'.node.sdo = m.node.sdo) {obs : List Obs}
    (htrace : m'.bus.trace = m.bus.trace ++ obs) (hobs : ∀ o ∈ obs, o.ofChannel = false) :
    MailInv m' := by
  constructor
  · intro i ch hch hcob
    rw [hsdo] at hch
    rw [htrace]
    exact (h.mail i ch hch hcob).other rfl rfl (mailEvents_of_not_channel hobs)
  · intro i frame reason idle hmem
    rw [htrace] at hmem
    rcases List.mem_append.mp hmem with hmem | hmem
    · exact h.idle i frame reason idle hmem
    · cases hobs _ hmem

omit [ObjectDictionary OD] in
/-- A step of channel `i` alone. -/
theorem MailInv.of_set (h : MailInv m) {i : ℕ} {ch ch' : SdoChannel}
    (hsdo : m'.node.sdo = m.node.sdo.set i ch')
    (hcobTx : ch'.cobTx = ch.cobTx) {obs : List Obs} (htrace : m'.bus.trace = m.bus.trace ++ obs)
    (hobs : ∀ o ∈ obs, IdleObs i o ∨ o.ofChannel = false)
    (hmail : ch.cobTx ≤ 0x7FF → ChannelMail i ch' m'.bus.trace) : MailInv m' := by
  constructor
  · intro j c hc hcob
    rw [hsdo, List.getElem?_set] at hc
    split_ifs at hc with hij
    · cases hc
      subst hij
      rw [hcobTx] at hcob
      exact hmail hcob
    · rw [htrace]
      apply (h.mail j c hc hcob).other rfl rfl
      apply mailEvents_of_ne
      intro o ho heq
      rcases hobs o ho with ⟨hown, -⟩ | hno
      · rw [hown] at heq
        exact hij (Option.some.inj heq)
      · unfold Obs.ofChannel at hno
        unfold Obs.channel? at heq
        split at heq <;> simp_all
  · intro j frame reason idle hmem
    rw [htrace] at hmem
    rcases List.mem_append.mp hmem with hmem | hmem
    · exact h.idle j frame reason idle hmem
    · rcases hobs _ hmem with ⟨-, hidle⟩ | hno
      · exact hidle j frame reason idle rfl
      · cases hno

theorem mailInv_request (h : MailInv m) {i : ℕ} {ch : SdoChannel} {request : SdoFrame}
    {nowUs : UInt64} (hch : m.node.sdo[i]? = some ch)
    (free : request.b0 = 0x80 ∨ ch.pending = none)
    (hr : (m.answerRequest i ch request nowUs).1.resync
      (m.answerRequest i ch request nowUs).2 = some m') : MailInv m' := by
  obtain ⟨hread, hbus⟩ := resync_reread hr
  obtain ⟨ch', b', hsdo, hb, hcases⟩ := answerRequest_cases m i ch request nowUs
  have hmail (hcob : ch.cobTx ≤ 0x7FF) : ChannelMail i ch' m'.bus.trace := by
    rw [hbus, hb]
    exact request_mail (h.mail i ch hch hcob) hcob free hcases
  rcases hcases with ⟨-, rfl, rfl⟩ | ⟨data, -, hsend⟩
  · exact h.of_set (hread.sdo.trans hsdo) rfl (by rw [hbus, hb]; rfl) requestObs_idle hmail
  · have hstep : ChannelStep m.state i ((m.requestChannel ch request nowUs).queue data nowUs)
        ((m.bus.log (m.requestObs i ch request nowUs)).log [.sdoProduced i data nowUs]) _ _ :=
      .trySend _ _
    rw [← hsend] at hstep
    obtain ⟨obs, htrace, hobs⟩ := channelStep_idleObs hstep
    have hall : m'.bus.trace = m.bus.trace ++
        (m.requestObs i ch request nowUs ++ (.sdoProduced i data nowUs :: obs)) := by
      rw [hbus, hb, htrace]
      simp [Bus.log]
    apply h.of_set (hread.sdo.trans hsdo) (channelStep_cobs hstep).2 hall _ hmail
    intro o ho
    rcases List.mem_append.mp ho with ho | ho
    · exact requestObs_idle o ho
    · rcases List.mem_cons.mp ho with rfl | ho
      · exact .inl ⟨rfl, by simp⟩
      · exact .inl (hobs o ho)

omit [ObjectDictionary OD] in
theorem MailInv.of_abort (h : MailInv m) (hsdo : m'.node.sdo = m.node.sdo.map SdoChannel.abort)
    (pre post : List Obs)
    (htrace : m'.bus.trace = m.bus.trace ++ (pre ++ (abortObs m.node.sdo ++ post)))
    (hpre : ∀ o ∈ pre, o.ofChannel = false) (hpost : ∀ o ∈ post, o.ofChannel = false) :
    MailInv m' := by
  constructor
  · intro i c hc hcob
    rw [hsdo, List.getElem?_map] at hc
    obtain ⟨ch, hch, rfl⟩ := Option.map_eq_some_iff.mp hc
    have hmail := h.mail i ch hch hcob
    have hbefore : ChannelMail i ch (m.bus.trace ++ pre) :=
      hmail.other rfl rfl (mailEvents_of_not_channel hpre)
    have hafter : ChannelMail i ch.abort (m.bus.trace ++ pre ++ abortObs m.node.sdo ++ post) :=
      (abort_mail hch hbefore).other rfl rfl (mailEvents_of_not_channel hpost)
    rw [htrace]
    simpa using hafter
  · intro i frame reason idle hmem
    rw [htrace] at hmem
    simp only [List.mem_append] at hmem
    rcases hmem with hmem | hmem | hmem | hmem
    · exact h.idle i frame reason idle hmem
    · cases hpre _ hmem
    · obtain ⟨obs, hobs, hmem⟩ := List.mem_flatten.mp hmem
      obtain ⟨⟨ch, j⟩, -, rfl⟩ := List.mem_map.mp hobs
      exact (discards_idle rfl _ hmem).2 i frame reason idle rfl
    · cases hpost _ hmem

/-- Every step keeps the mailboxes. -/
theorem mailInv_step {allowed : (OD → OD) → Prop} (m m' : Machine OD evt dirty) (h : MailInv m)
    (hs : Step allowed m m') : MailInv m' := by
  cases sdoStep_of_step hs with
  | other hsdo htrace hobs => exact h.of_sdo_eq hsdo htrace hobs
  | channel i hch hstep hsdo =>
    obtain ⟨obs, htrace, hobs⟩ := channelStep_idleObs hstep
    refine h.of_set hsdo (channelStep_cobs hstep).2 htrace (fun o ho => .inl (hobs o ho)) ?_
    intro hcob
    exact channelStep_mail hstep (h.mail i _ hch hcob) hcob
  | request i request nowUs hch free hr => exact mailInv_request h hch free hr
  | stop old pdoDownload hsdo htrace =>
    refine h.of_abort hsdo [.nmt old .stopped pdoDownload] [] ?_ (by simp [Obs.ofChannel]) (by simp)
    rw [htrace, List.append_nil]
    rfl
  | reset resetType hsdo htrace =>
    exact h.of_abort hsdo [] [.reset resetType] htrace (by simp) (by simp [Obs.ofChannel])

theorem mailInv_start {config : NodeConfig} {od : OD} {n : Node OD evt dirty}
    (h : Node.new config od = some n) : MailInv (Machine.start n) := by
  obtain ⟨od', hread⟩ := new_reread h
  constructor
  · intro i ch hch _
    have hmem : ch ∈ n.sdo := List.mem_of_getElem? hch
    have hempty : ch.message = none := by
      rw [hread.sdo] at hmem
      rcases List.mem_cons.mp hmem with rfl | hmem
      · rfl
      · obtain ⟨s, -, rfl⟩ := List.mem_map.mp hmem
        rfl
    unfold ChannelMail
    rw [hempty]
    rfl
  · intro i frame reason idle hmem
    cases hmem

end Runs

/-- All responses produced so far have been accepted or given up. -/
def Settled (i : ℕ) (cob : UInt16) (trace : List Obs) : Prop :=
  puts (mailEvents i cob trace) = (settled (mailEvents i cob trace)).map Prod.fst

/-- In every run, for every channel whose response COB-ID has 11 bits: the responses the
transport took or that were given up are exactly those the server produced, each once
and in order, and the last one may still be pending; a response is given up only when
no transfer is left, and for its reason; while one is pending the server handles no
request other than an abort and produces nothing. -/
theorem sdo_responses_kept {config : NodeConfig} {od : OD} {n : Node OD evt dirty}
    (hn : Node.new config od = some n) {m : Machine OD evt dirty} (hm : Visited n m) {i : ℕ}
    {ch : SdoChannel} (hch : m.node.sdo[i]? = some ch) (hcob : ch.cobTx ≤ 0x7FF) :
    puts (mailEvents i ch.cobTx m.bus.trace) =
      (settled (mailEvents i ch.cobTx m.bus.trace)).map Prod.fst ++ ch.message.toList ∧
    (∀ frame reason idle, .sdoDiscarded i frame reason idle ∈ m.bus.trace → idle = true) ∧
    (∀ pre request nowUs post, m.bus.trace = pre ++ .sdoRequest i request nowUs :: post →
      request.b0 ≠ 0x80 → Settled i ch.cobTx pre) ∧
    (∀ pre data nowUs post, m.bus.trace = pre ++ .sdoProduced i data nowUs :: post →
      Settled i ch.cobTx pre) ∧
    (∀ before frame reason idle after,
      m.bus.trace = before ++ .sdoDiscarded i frame reason idle :: after →
        Excused i before frame after reason) := by
  have hexcused : AllExcused m.bus.trace := (visited_inv discardInv_step hm (discardInv_start hn)).excused
  have hinv : MailInv m := visited_inv mailInv_step hm (mailInv_start hn)
  have hmail : Accepts (mailEvents i ch.cobTx m.bus.trace) ch.message := hinv.mail i ch hch hcob
  have hsettled {pre : List Obs} (h : Accepts (mailEvents i ch.cobTx pre) none) :
      Settled i ch.cobTx pre := by
    unfold Settled
    rw [h.balance, Option.toList_none, List.append_nil]
  refine ⟨hmail.balance, fun frame reason idle => hinv.idle i frame reason idle, ?_, ?_,
    fun before frame reason idle after => hexcused before i frame reason idle after⟩
  · intro pre request nowUs post htrace hrequest
    have hevent : mailEvent i ch.cobTx (.sdoRequest i request nowUs) = some .needsEmpty := by
      simp [mailEvent, hrequest]
    rw [htrace, mailEvents_append, mailEvents, mailEvents, List.filterMap_cons, hevent] at hmail
    exact hsettled hmail.needsEmpty_empty
  · intro pre data nowUs post htrace
    have hevent : mailEvent i ch.cobTx (.sdoProduced i data nowUs) =
        some (.put (ch.cobTx, data.toList)) := by
      simp [mailEvent]
    rw [htrace, mailEvents_append, mailEvents, mailEvents, List.filterMap_cons, hevent] at hmail
    exact hsettled hmail.put_empty

/-- A response that the transport refuses is offered again in the next call, and a
request in between is not handled. -/
def refusedCalls : List (Call Derive.GeneratedOd) :=
  [.process 0 [] [],
    .process 1000 [.literal 0x605 [0x40, 0x00, 0x10, 0, 0, 0, 0, 0],
      .literal 0x605 [0x40, 0x17, 0x10, 0, 0, 0, 0, 0]] [.wouldBlock],
    .process 2000 [] []]

theorem sdo_responses_kept_refused :
    ∃ m ch, sampleRun refusedCalls = some m ∧ m.node.sdo[0]? = some ch ∧ ch.cobTx = 0x585 ∧
      settled (mailEvents 0 0x585 m.bus.trace) ≠ [] ∧ puts (mailEvents 0 0x585 m.bus.trace) =
        (settled (mailEvents 0 0x585 m.bus.trace)).map Prod.fst ++ ch.message.toList := by
  have hany : (sampleRun refusedCalls).any (fun m => m.node.sdo[0]?.any (·.cobTx == 0x585) &&
      !(settled (mailEvents 0 0x585 m.bus.trace)).isEmpty) = true := by
    decide
  obtain ⟨n, m, hn, hr, hm, hp⟩ := sampleRun_of_any hany
  rw [Bool.and_eq_true] at hp
  obtain ⟨ch, hch, hcob⟩ := (Option.any_eq_true _ _).mp hp.1
  rw [beq_iff_eq] at hcob
  have hkept := (sdo_responses_kept hn (.between hr) hch (by rw [hcob]; decide)).1
  rw [hcob] at hkept
  exact ⟨m, ch, hm, hch, hcob, by simpa using hp.2, hkept⟩

/-- After five seconds a refused response is given up. -/
example : (sampleRun (refusedCalls.take 2 ++ [.process 5001000 [] []])).any (fun m =>
    m.bus.trace.any Obs.isDiscard) = true := by decide

/-- The small device with a second SDO server whose response COB-ID needs 12 bits. -/
def wideCobConfig : NodeConfig :=
  { NodeConfig.fromOd Derive.sampleOd Derive.sampleNode with sdoServers := [⟨0x640, 0x800⟩] }

/-- An upload request to the second server. -/
def wideCobCalls : List (Call Derive.GeneratedOd) :=
  [.process 0 [] [],
    .process 1000 [.literal 0x640 [0x40, 0x00, 0x10, 0, 0, 0, 0, 0]] []]

/-- The server produces a response that is neither accepted, nor given up, nor pending. -/
theorem sdo_responses_lost_wide_cob :
    ∃ (n : Node Derive.GeneratedOd 4 4) (m : Machine Derive.GeneratedOd 4 4) (ch : SdoChannel),
      Node.new wideCobConfig Derive.sampleOd = some n ∧
      (Machine.start n).run wideCobCalls = some m ∧ m.node.sdo[1]? = some ch ∧
      puts (mailEvents 1 ch.cobTx m.bus.trace) ≠
        (settled (mailEvents 1 ch.cobTx m.bus.trace)).map Prod.fst ++ ch.message.toList := by
  have hany : ((Node.new wideCobConfig Derive.sampleOd : Option (Node Derive.GeneratedOd 4 4)).bind
      fun n => (Machine.start n).run wideCobCalls).any (fun m => m.node.sdo[1]?.any fun ch =>
        puts (mailEvents 1 ch.cobTx m.bus.trace) !=
          (settled (mailEvents 1 ch.cobTx m.bus.trace)).map Prod.fst ++ ch.message.toList) = true := by
    decide
  obtain ⟨m, hm, hp⟩ := (Option.any_eq_true _ _).mp hany
  obtain ⟨n, hn, hr⟩ := Option.bind_eq_some_iff.mp hm
  obtain ⟨ch, hch, hne⟩ := (Option.any_eq_true _ _).mp hp
  exact ⟨n, m, ch, hn, hr, hch, by simpa using hne⟩

end Canopen
