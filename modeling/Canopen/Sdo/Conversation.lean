import Canopen.Sdo.Driver
import Canopen.Sdo.Exchange

/-!
# Driver against server

The driver of `sdo/driver.rs` and the server of `sdo/server.rs` at the two ends of a bus that
carries other traffic as well. The driver is polled, the server works off its requests, and
frames of others arrive, in any order. Whatever the order, there is never more than one
request and one answer under way, so the conversation can only end as the plain exchange of
frames does.
-/

namespace Canopen.Sdo

variable {OD : Type} [ObjectDictionary OD] {cap : ℕ} {E R : Type}

/-- A driver and a server, with the frames that are on their way. -/
structure Conversation (OD : Type) (cap : ℕ) (E R : Type) where
  transfer : DriverState E R
  server : SdoState OD cap
  /-- Frames to the server. -/
  requests : List CanFrame
  /-- What the transport holds for the driver, frames of others included. -/
  inbox : List CanFrame
  /-- The number of requests the server has processed. -/
  served : ℕ

/-- What can happen next. -/
inductive Move (E : Type)
  /-- The driver is polled. -/
  | poll (w : Wake E)
  /-- The server processes its oldest request. -/
  | serve
  /-- A frame of another node arrives. -/
  | other (frame : CanFrame)

def responseFrame (target : NodeId) (response : SdoFrame) : CanFrame :=
  ⟨CobId.sdoTx target, response.toList, CobId.sdoTx_le target, response.length_toList_le⟩

/-- A transport hands out the frames it holds, oldest first. -/
def Wake.honest (w : Wake E) (inbox : List CanFrame) : Bool :=
  match w.receive with
  | .ready (.ok frame) => inbox.head? == some frame
  | .ready (.error _) | .pending => true

def Wake.takesAbort (w : Wake E) : Bool :=
  match w.abort with
  | .ready (.ok ()) => true
  | .ready (.error _) | .pending => false

namespace Conversation

def start (transfer : DriverState E R) (server : SdoState OD cap) : Conversation OD cap E R :=
  ⟨transfer, server, [], [], 0⟩

def onBus (w : Wake E) (passed : List Passed) : List CanFrame :=
  sentFrames passed ++ if w.takesAbort then abortFrames passed else []

def polled (c : Conversation OD cap E R) (w : Wake E) (r : DriverState E R × List Passed) :
    Conversation OD cap E R :=
  { c with
    transfer := r.1
    requests := c.requests ++ onBus w r.2
    inbox := c.inbox.drop (r.2.filterMap Passed.received?).length }

def step (ctx : ℕ → SdoContext) (call : Call R) (c : Conversation OD cap E R) :
    Move E → Option (Conversation OD cap E R)
  | .poll w =>
    match c.transfer with
    | .waiting client wait entered =>
      if w.honest c.inbox then some (c.polled w (call.poll client wait entered w)) else none
    | .finished _ => none
  | .serve =>
    match c.requests with
    | [] => none
    | frame :: rest =>
      let (s, response) := c.server.processWithContext (.ofData frame.data) (ctx c.served)
      some { c with
        server := s
        requests := rest
        inbox := c.inbox ++ response.toList.map (responseFrame call.driver.target)
        served := c.served + 1 }
  | .other frame =>
    if call.answered frame then none else some { c with inbox := c.inbox ++ [frame] }

end Conversation

/-! ## The exchange ahead -/

/-- From here the plain exchange of frames ends in `o`. -/
def Leads {BUF : ℕ} (ctx : ℕ → SdoContext) (i : ℕ) (client : SdoClient BUF) (s : SdoState OD cap)
    (frame : CanFrame) (o : Outcome OD cap BUF) : Prop :=
  ∃ fuel, exchange ctx fuel i client s frame = some o

/-- The server has answered; from here the exchange ends in `o`. -/
structure Replied {BUF : ℕ} (ctx : ℕ → SdoContext) (i : ℕ) (client : SdoClient BUF) (s : SdoState OD cap)
    (response : SdoFrame) (o : Outcome OD cap BUF) : Prop where
  goes : ∀ client' next, client.processResponse response = (client', .sendNext next) →
    Leads ctx i client' s next o
  ends : ∀ client' result, client.processResponse response = (client', result) →
    (∀ next, result ≠ .sendNext next) → o = ⟨some result, client', s⟩

theorem Leads.served {BUF : ℕ} {ctx : ℕ → SdoContext} {i : ℕ} {client : SdoClient BUF} {s : SdoState OD cap}
    {frame : CanFrame} {o : Outcome OD cap BUF} (h : Leads ctx i client s frame o) (hresult : o.result ≠ none) :
    ∃ s' response, s.processWithContext (.ofData frame.data) (ctx i) = (s', some response) ∧
      Replied ctx (i + 1) client s' response o := by
  obtain ⟨fuel, hrun⟩ := h
  cases fuel with
  | zero => cases hrun
  | succ fuel =>
    rcases hserver : s.processWithContext (.ofData frame.data) (ctx i) with ⟨s', _ | response⟩
    · rw [exchange, hserver] at hrun
      cases hrun
      exact absurd rfl hresult
    · refine ⟨s', response, rfl, ?_, ?_⟩
      · intro client' next hclient
        exact ⟨fuel, (exchange_next hserver hclient).symm.trans hrun⟩
      · intro client' result hclient hends
        exact (Option.some.inj ((exchange_last hserver hclient hends).symm.trans hrun)).symm

/-! ## Writes -/

/-- The dictionary of `s` is what the writes since `s₀` have made of it. -/
def WrittenSince (s₀ s : SdoState OD cap) : Prop :=
  ∃ ws, s.writes = s₀.writes ++ ws ∧
    s.od = ws.foldl (fun od w => (ObjectDictionary.write od w.index w.subindex w.data).2) s₀.od

theorem writtenSince_refl (s : SdoState OD cap) : WrittenSince s s := ⟨[], by simp, rfl⟩

theorem WrittenSince.trans {s s' s'' : SdoState OD cap} (h : WrittenSince s s') (h' : WrittenSince s' s'') :
    WrittenSince s s'' := by
  obtain ⟨ws, hw, hod⟩ := h
  obtain ⟨ws', hw', hod'⟩ := h'
  exact ⟨ws ++ ws', by rw [hw', hw, List.append_assoc], by rw [hod', hod, List.foldl_append]⟩

theorem writtenSince_process (s : SdoState OD cap) (request : SdoFrame) (ctx : SdoContext) :
    WrittenSince s (s.processWithContext request ctx).1 := by
  rcases processWithContext_cases s request ctx with ⟨hsame, -⟩ | ⟨index, subindex, data, success, -, heq⟩
  · exact ⟨[], by rw [hsame.writes, List.append_nil], hsame.od⟩
  rw [heq]
  rcases commitDownload_cases s ctx index subindex data success with
    ⟨code, -, hc⟩ | ⟨e, code, -, -, hc⟩ | ⟨-, -, hc⟩
  · rw [hc]
    exact ⟨[], (List.append_nil _).symm, rfl⟩
  · rw [hc]
    exact ⟨[_], rfl, rfl⟩
  · rw [hc]
    exact ⟨[_], rfl, rfl⟩

/-- The writes of an exchange are those of its beginning and some more. -/
theorem Leads.writtenSince {BUF : ℕ} {ctx : ℕ → SdoContext} {i : ℕ} {client : SdoClient BUF}
    {s : SdoState OD cap} {frame : CanFrame} {o : Outcome OD cap BUF} (h : Leads ctx i client s frame o) :
    WrittenSince s o.state := by
  obtain ⟨fuel, hrun⟩ := h
  induction fuel generalizing i client s frame with
  | zero => cases hrun
  | succ fuel ih =>
    have hstep := writtenSince_process s (.ofData frame.data) (ctx i)
    rcases hserver : s.processWithContext (.ofData frame.data) (ctx i) with ⟨s', _ | response⟩
    · rw [exchange, hserver] at hrun
      cases hrun
      rwa [hserver] at hstep
    rw [hserver] at hstep
    rcases hclient : client.processResponse response with ⟨client', result⟩
    by_cases hnext : ∃ next, result = .sendNext next
    · obtain ⟨next, rfl⟩ := hnext
      rw [exchange_next hserver hclient] at hrun
      exact hstep.trans (ih hrun)
    · rw [exchange_last hserver hclient fun next hr => hnext ⟨next, hr⟩] at hrun
      cases hrun
      exact hstep

theorem Replied.writtenSince {BUF : ℕ} {ctx : ℕ → SdoContext} {i : ℕ} {client : SdoClient BUF}
    {s : SdoState OD cap} {response : SdoFrame} {o : Outcome OD cap BUF}
    (h : Replied ctx i client s response o) : WrittenSince s o.state := by
  rcases hclient : client.processResponse response with ⟨client', result⟩
  by_cases hnext : ∃ next, result = .sendNext next
  · obtain ⟨next, rfl⟩ := hnext
    exact (h.goes client' next hclient).writtenSince
  · rw [h.ends client' result hclient fun next hr => hnext ⟨next, hr⟩]
    exact writtenSince_refl s

/-! ## Every order of events -/

/-- Where a conversation can stand if the exchange ends in `o`. `Reliable` says that the server
was idle and that the transport takes every abort. -/
inductive Stands (ctx : ℕ → SdoContext) (call : Call R) (Reliable : Prop)
    (o : Outcome OD cap SdoDriver.maxTransfer) : Conversation OD cap E R → Prop
  /-- A frame is about to be sent. -/
  | asks {client wait entered server inbox served frame}
    (hwait : (wait = .request frame ∧ (Reliable → server.server.transfer = none)) ∨ wait = .next frame)
    (hinbox : inbox.filter call.answered = []) (h : Leads ctx served client server frame o) :
    Stands ctx call Reliable o ⟨.waiting client wait entered, server, [], inbox, served⟩
  | asked {client entered server inbox served frame} (hinbox : inbox.filter call.answered = [])
    (h : Leads ctx served client server frame o) :
    Stands ctx call Reliable o ⟨.waiting client .response entered, server, [frame], inbox, served⟩
  | answered {client entered server inbox served response}
    (hinbox : inbox.filter call.answered = [responseFrame call.driver.target response])
    (h : Replied ctx served client server response o) :
    Stands ctx call Reliable o ⟨.waiting client .response entered, server, [], inbox, served⟩
  | settled {inbox served answer outcome} (hresult : o.result = some answer)
    (hturn : call.turn o.client answer = .settled outcome) :
    Stands ctx call Reliable o ⟨.finished (outcome.mapError .sdo), o.state, [], inbox, served⟩
  | broken {server aborts inbox served answer} (hresult : o.result = some answer)
    (hturn : call.turn o.client answer = .broken .protocolError) (hsame : SameData o.state server)
    (haborts : ∀ frame ∈ aborts, ∃ code, frame = call.abortFrame code)
    (hfree : Reliable → aborts ≠ [] ∨ server.server.transfer = none) :
    Stands ctx call Reliable o ⟨.finished (.error (.sdo .protocolError)), server, aborts, inbox, served⟩
  /-- Time or the transport has ended the transfer; a request may still be under way. -/
  | failed {error server late aborts inbox served} (herror : error = .timeout ∨ ∃ e, error = .transport e)
    (hlate : (late = [] ∧ WrittenSince server o.state) ∨
      ∃ client frame, late = [frame] ∧ Leads ctx served client server frame o)
    (haborts : ∀ frame ∈ aborts, ∃ code, frame = call.abortFrame code)
    (hfree : Reliable → error = .timeout → aborts ≠ [] ∨ late = [] ∧ server.server.transfer = none) :
    Stands ctx call Reliable o ⟨.finished (.error error), server, late ++ aborts, inbox, served⟩

section

variable {ctx : ℕ → SdoContext} {call : Call R} {Reliable : Prop} {o : Outcome OD cap SdoDriver.maxTransfer}

theorem processWithContext_abortFrame (s : SdoState OD cap) (code : AbortCode) (c : SdoContext) :
    s.processWithContext (.ofData (call.abortFrame code).data) c = (s.setTransfer none, none) := by
  have hb0 : (SdoFrame.ofData (call.abortFrame code).data).b0 = 0x80 := rfl
  have hcs : commandSpecifier (0x80 : UInt8) = Ccs.abortTransfer.toByte := by decide
  unfold SdoState.processWithContext
  rw [hb0, bne_self_eq_false, Bool.and_false, if_neg Bool.false_ne_true]
  simp [SdoState.dispatch, hb0, hcs, Ccs.toByte]

theorem answered_responseFrame (response : SdoFrame) :
    call.answered (responseFrame call.driver.target response) = true := beq_self_eq_true _

theorem onBus_abort (w : Wake E) (frame : CanFrame) :
    Conversation.onBus w [.abort frame] = if w.takesAbort then [frame] else [] := by
  simp [Conversation.onBus]

/-- A wait behind the request that time or the transport ends. -/
theorem stands_finish {server : SdoState OD cap} {late : List CanFrame} {inbox : List CanFrame} {served : ℕ}
    {client : SdoClient SdoDriver.maxTransfer} {wait : Wait} {entered : Bool} {error : DriverError E}
    {w : Wake E} (herror : error = .timeout ∨ ∃ e, error = .transport e)
    (hw : Reliable → w.takesAbort = true)
    (hlate : (late = [] ∧ WrittenSince server o.state) ∨
      ∃ client frame, late = [frame] ∧ Leads ctx served client server frame o) :
    Stands ctx call Reliable o
      (Conversation.polled ⟨.waiting client wait entered, server, late, inbox, served⟩ w (call.finish error)) := by
  rcases herror with rfl | ⟨e, rfl⟩
  · refine .failed (.inl rfl) hlate ?_ ?_
    · intro frame hframe
      rw [show (call.finish .timeout : DriverState E R × List Passed).2 =
        [.abort (call.abortFrame .sdoProtocolTimeout)] from rfl, onBus_abort] at hframe
      split at hframe
      · exact ⟨_, List.mem_singleton.mp hframe⟩
      · cases hframe
    · intro hreliable _
      left
      rw [show (call.finish .timeout : DriverState E R × List Passed).2 =
        [.abort (call.abortFrame .sdoProtocolTimeout)] from rfl, onBus_abort, hw hreliable]
      exact List.cons_ne_nil _ _
  · refine .failed (.inr ⟨e, rfl⟩) hlate ?_ (by rintro _ ⟨⟩)
    intro frame hframe
    have hnone : Conversation.onBus w (call.finish (.transport e) : DriverState E R × List Passed).2 = [] := by
      cases htakes : w.takesAbort <;> simp [Conversation.onBus, Call.finish, abortCode, htakes, abortFrames, sentFrames]
    rw [hnone] at hframe
    cases hframe

theorem onBus_nil (w : Wake E) : Conversation.onBus w [] = [] := by
  cases h : w.takesAbort <;> simp [Conversation.onBus, h, sentFrames, abortFrames]

omit [ObjectDictionary OD] in
theorem polled_quiet (c : Conversation OD cap E R) (w : Wake E) (t : DriverState E R) :
    c.polled w (t, []) = { c with transfer := t } := by
  simp [Conversation.polled, onBus_nil]

omit [ObjectDictionary OD] in
theorem polled_sent (c : Conversation OD cap E R) (w : Wake E) (t : DriverState E R) (frame : CanFrame) :
    c.polled w (t, [.sent frame]) = { c with transfer := t, requests := c.requests ++ [frame] } := by
  have hnone : [Passed.sent frame].filterMap Passed.received? = [] := rfl
  have hbus : Conversation.onBus w [.sent frame] = [frame] := by
    cases h : w.takesAbort <;> simp [Conversation.onBus, h]
  rw [Conversation.polled]
  dsimp only
  rw [hnone, hbus]
  rfl

omit [ObjectDictionary OD] in
theorem polled_received (c : Conversation OD cap E R) (w : Wake E) (r : DriverState E R × List Passed)
    (frame : CanFrame) (h : r.2.filterMap Passed.received? = []) :
    c.polled w (r.1, .received frame :: r.2) =
      { c with transfer := r.1, requests := c.requests ++ Conversation.onBus w r.2, inbox := c.inbox.tail } := by
  rw [Conversation.polled]
  simp only [List.filterMap_cons, Passed.received?, h]
  rw [List.length_singleton, List.drop_one]
  rfl

theorem onReceive_other (client : SdoClient SdoDriver.maxTransfer) {frame : CanFrame}
    (h : call.answered frame = false) :
    (call.onReceive client frame : DriverState E R × List Passed) = (.waiting client .response false, []) :=
  if_pos (by simpa [Call.answered] using h)

theorem stands_onResponse {server : SdoState OD cap} {inbox : List CanFrame} {served : ℕ} {response : SdoFrame}
    {client : SdoClient SdoDriver.maxTransfer} {w : Wake E} {r : DriverState E R × List Passed}
    (hr : call.onReceive client (responseFrame call.driver.target response) = r)
    (hw : Reliable → w.takesAbort = true) (hinbox : inbox.filter call.answered = [])
    (h : Replied ctx served client server response o) (hignored : o.result ≠ some .ignoredAbort) :
    Stands ctx call Reliable o ⟨r.1, server, Conversation.onBus w r.2, inbox, served⟩ := by
  have hmine : ¬(responseFrame call.driver.target response).id ≠ call.driver.responseCob := not_not.mpr rfl
  have hdlc : ¬(responseFrame call.driver.target response).rawDlc ≠ 8 := not_not.mpr rfl
  rw [Call.onReceive, if_neg hmine, if_neg hdlc, Call.onResponse] at hr
  rw [show SdoFrame.ofData (responseFrame call.driver.target response).data = response from rfl] at hr
  rcases hclient : client.processResponse response with ⟨client', answer⟩
  rw [hclient] at hr
  subst hr
  dsimp only
  by_cases hgoes : ∃ next, answer = .sendNext next
  · obtain ⟨next, rfl⟩ := hgoes
    rw [call.turn_sendNext]
    dsimp only
    rw [onBus_nil]
    exact .asks (.inr rfl) hinbox (h.goes client' next hclient)
  have hends := h.ends client' answer hclient fun next hn => hgoes ⟨next, hn⟩
  by_cases hwaits : answer = .ignoredAbort
  · subst hwaits
    rw [hends] at hignored
    exact absurd rfl hignored
  have hserver : server = o.state := by rw [hends]
  have hturned : client' = o.client := by rw [hends]
  rcases call.turn_ends client' answer (fun next hn => hgoes ⟨next, hn⟩) hwaits with
    ⟨outcome, hturn, hknown⟩ | hturn
  · rw [hturn, hserver]
    dsimp only
    rw [onBus_nil]
    exact .settled (congrArg Outcome.result hends) (hturned ▸ hturn)
  · rw [hturn]
    refine .broken (congrArg Outcome.result hends) (hturned ▸ hturn) (hserver ▸ sameData_refl _) ?_ ?_
    · intro frame hframe
      rw [show (call.finish (.sdo .protocolError) : DriverState E R × List Passed).2 =
        [.abort (call.abortFrame .invalidCommandSpecifier)] from rfl, onBus_abort] at hframe
      split at hframe
      · exact ⟨_, List.mem_singleton.mp hframe⟩
      · cases hframe
    · intro hreliable
      left
      rw [show (call.finish (.sdo .protocolError) : DriverState E R × List Passed).2 =
        [.abort (call.abortFrame .invalidCommandSpecifier)] from rfl, onBus_abort, hw hreliable]
      exact List.cons_ne_nil _ _

theorem inbox_cases {inbox rest : List CanFrame} {frame : CanFrame} (h : inbox = frame :: rest) :
    (call.answered frame = false ∧ inbox.filter call.answered = rest.filter call.answered) ∨
      (call.answered frame = true ∧ inbox.filter call.answered = frame :: rest.filter call.answered) := by
  subst h
  rcases hframe : call.answered frame with _ | _
  · exact .inl ⟨rfl, List.filter_cons_of_neg (by simp [hframe])⟩
  · exact .inr ⟨rfl, List.filter_cons_of_pos hframe⟩

theorem honest_ready {w : Wake E} {inbox : List CanFrame} {frame : CanFrame} (h : w.honest inbox = true)
    (hready : w.receive = .ready (.ok frame)) : inbox = frame :: inbox.tail := by
  rw [Wake.honest, hready] at h
  cases inbox with
  | nil => cases h
  | cons first rest =>
    rw [Option.some.inj (beq_iff_eq.mp h)]
    rfl

/-- A poll of a wait for the answer. -/
theorem stands_response {server : SdoState OD cap} {late inbox : List CanFrame} {served : ℕ}
    {client : SdoClient SdoDriver.maxTransfer} {entered : Bool} {w : Wake E}
    (h : Stands (E := E) ctx call Reliable o ⟨.waiting client .response true, server, late, inbox, served⟩)
    (hlate : (late = [] ∧ WrittenSince server o.state) ∨
      ∃ client frame, late = [frame] ∧ Leads ctx served client server frame o)
    (hother : ∀ rest, inbox.filter call.answered = rest.filter call.answered →
      Stands (E := E) ctx call Reliable o ⟨.waiting client .response false, server, late, rest, served⟩)
    (hmine : ∀ frame rest, inbox.filter call.answered = frame :: rest.filter call.answered →
      ∀ r : DriverState E R × List Passed, call.onReceive client frame = r →
        Stands ctx call Reliable o ⟨r.1, server, late ++ Conversation.onBus w r.2, rest, served⟩)
    (hw : Reliable → w.takesAbort = true) (honest : w.honest inbox = true) :
    Stands ctx call Reliable o (Conversation.polled ⟨.waiting client .response entered, server, late, inbox, served⟩
      w (call.poll client .response entered w)) := by
  simp only [Call.poll]
  split
  · rw [polled_quiet]
    exact h
  · rename_i error herror
    exact stands_finish (Call.withDeadline_error herror) hw hlate
  · rename_i frame hready
    have hfront := honest_ready honest (Call.withDeadline_ok hready)
    rw [polled_received _ _ _ _ (Call.onReceive_received client frame)]
    rcases @inbox_cases _ call _ _ _ hfront with ⟨hforeign, hsame⟩ | ⟨-, hsame⟩
    · rw [onReceive_other client hforeign, onBus_nil, List.append_nil]
      exact hother _ hsame
    · exact hmine frame _ hsame _ rfl

/-- One event, whichever comes first. -/
theorem stands_step {c c' : Conversation OD cap E R} {move : Move E} (h : Stands ctx call Reliable o c)
    (hresult : o.result ≠ none) (hignored : o.result ≠ some .ignoredAbort)
    (hw : Reliable → ∀ w, move = .poll w → w.takesAbort = true) (hstep : c.step ctx call move = some c') :
    Stands ctx call Reliable o c' := by
  cases move with
  | other frame =>
    rw [Conversation.step] at hstep
    split at hstep
    · cases hstep
    rename_i hother
    cases hstep
    have hsame (inbox : List CanFrame) : (inbox ++ [frame]).filter call.answered = inbox.filter call.answered := by
      simp [hother]
    cases h with
    | asks hwait hinbox h => exact .asks hwait ((hsame _).trans hinbox) h
    | asked hinbox h => exact .asked ((hsame _).trans hinbox) h
    | answered hinbox h => exact .answered ((hsame _).trans hinbox) h
    | settled hresult hturn => exact .settled hresult hturn
    | broken hresult hturn hsame haborts hfree => exact .broken hresult hturn hsame haborts hfree
    | failed herror hlate haborts hfree => exact .failed herror hlate haborts hfree
  | serve =>
    cases h with
    | asks | answered | settled => cases hstep
    | asked hinbox h =>
      obtain ⟨s', response, hserver, hreplied⟩ := h.served hresult
      simp only [Conversation.step, hserver] at hstep
      cases hstep
      refine .answered ?_ hreplied
      rw [List.filter_append, hinbox, Option.toList_some, List.map_singleton, List.filter_singleton,
        answered_responseFrame]
      rfl
    | broken hresult hturn hsame haborts hfree =>
      rename_i server aborts inbox served answer
      cases aborts with
      | nil => cases hstep
      | cons first rest =>
        obtain ⟨code, rfl⟩ := haborts first List.mem_cons_self
        simp only [Conversation.step, processWithContext_abortFrame] at hstep
        cases hstep
        exact .broken hresult hturn (hsame.trans (sameData_setTransfer _ _))
          (fun frame hframe => haborts frame (List.mem_cons_of_mem _ hframe)) fun _ => .inr rfl
    | failed herror hlate haborts hfree =>
      rename_i error server late aborts inbox served
      rcases hlate with ⟨rfl, hwritten⟩ | ⟨client, frame, rfl, h⟩
      · cases aborts with
        | nil => cases hstep
        | cons first rest =>
          obtain ⟨code, rfl⟩ := haborts first List.mem_cons_self
          simp only [Conversation.step, List.nil_append, processWithContext_abortFrame] at hstep
          cases hstep
          change Stands ctx call Reliable o
            ⟨.finished (.error error), server.setTransfer none, [] ++ rest, _, _⟩
          exact .failed herror (.inl ⟨rfl, hwritten⟩)
            (fun frame hframe => haborts frame (List.mem_cons_of_mem _ hframe)) fun _ _ => .inr ⟨rfl, rfl⟩
      · obtain ⟨s', response, hserver, hreplied⟩ := h.served hresult
        simp only [Conversation.step, List.singleton_append, hserver] at hstep
        cases hstep
        refine .failed herror (.inl ⟨rfl, hreplied.writtenSince⟩) haborts ?_
        intro hreliable htimeout
        rcases hfree hreliable htimeout with hne | ⟨hnil, -⟩
        · exact .inl hne
        · cases hnil
  | poll w =>
    have hw := fun hreliable => hw hreliable w rfl
    cases h with
    | settled | broken | failed => cases hstep
    | asks hwait hinbox h =>
      rename_i client wait entered server inbox served frame
      have hquiet : (([] : List CanFrame) = [] ∧ WrittenSince server o.state) ∨
          ∃ client frame, [] = [frame] ∧ Leads ctx served client server frame o :=
        .inl ⟨rfl, h.writtenSince⟩
      simp only [Conversation.step] at hstep
      split at hstep
      · cases hstep
        rcases hwait with ⟨rfl, hidle⟩ | rfl
        · simp only [Call.poll]
          split
          · rw [polled_quiet]
            exact .asks (.inl ⟨rfl, hidle⟩) hinbox h
          · rename_i error herror
            rw [polled_quiet]
            exact .failed (Call.withDeadline_error herror) hquiet (List.forall_mem_nil _) fun hreliable _ => .inr ⟨rfl, hidle hreliable⟩
          · rw [polled_sent]
            exact .asked hinbox h
        · simp only [Call.poll]
          split
          · rw [polled_quiet]
            exact .asks (.inr rfl) hinbox h
          · rename_i error herror
            exact stands_finish (Call.withDeadline_error herror) hw hquiet
          · rw [polled_sent]
            exact .asked hinbox h
      · cases hstep
    | asked hinbox h =>
      simp only [Conversation.step] at hstep
      split at hstep
      · rename_i honest
        cases hstep
        refine stands_response (.asked hinbox h) (.inr ⟨_, _, rfl, h⟩) ?_ ?_ hw honest
        · intro rest hsame
          exact .asked (hsame.symm.trans hinbox) h
        · intro frame rest hsame
          rw [hinbox] at hsame
          cases hsame
      · cases hstep
    | answered hinbox h =>
      simp only [Conversation.step] at hstep
      split at hstep
      · rename_i honest
        cases hstep
        refine stands_response (.answered hinbox h) (.inl ⟨rfl, h.writtenSince⟩) ?_ ?_ hw honest
        · intro rest hsame
          exact .answered (hsame.symm.trans hinbox) h
        · intro frame rest hsame r hr
          rw [hinbox] at hsame
          obtain ⟨hframe, hrest⟩ := List.cons.inj hsame
          rw [← hframe] at hr
          exact stands_onResponse hr hw hrest.symm h hignored
      · cases hstep

theorem stands_run {client : SdoClient SdoDriver.maxTransfer} {request : CanFrame} {s : SdoState OD cap}
    {moves : List (Move E)} {c : Conversation OD cap E R} (h : Leads ctx 0 client s request o)
    (hresult : o.result ≠ none) (hignored : o.result ≠ some .ignoredAbort)
    (hidle : Reliable → s.server.transfer = none)
    (hw : Reliable → ∀ w, .poll w ∈ moves → w.takesAbort = true)
    (hrun : Runs.run (Conversation.step ctx call) (.start (.waiting client (.request request) false) s) moves =
      some c) : Stands ctx call Reliable o c := by
  have hstart : Stands (E := E) ctx call Reliable o
      (.start (.waiting client (.request request) false) s) := .asks (.inl ⟨rfl, hidle⟩) rfl h
  generalize Conversation.start (.waiting client (.request request) false) s = c₀ at hstart hrun
  induction moves generalizing c₀ with
  | nil =>
    cases hrun
    exact hstart
  | cons move moves ih =>
    obtain ⟨c₁, hstep, hrest⟩ := Runs.run_cons.mp hrun
    refine ih (fun hreliable w hmem => hw hreliable w (List.mem_cons_of_mem _ hmem)) c₁ ?_ hrest
    exact stands_step hstart hresult hignored
      (fun hreliable w hmove => hw hreliable w (hmove ▸ List.mem_cons_self)) hstep

/-- The dictionary is what the writes have made of it, all along. -/
theorem writtenSince_run {c₀ c : Conversation OD cap E R} {moves : List (Move E)}
    (hrun : Runs.run (Conversation.step ctx call) c₀ moves = some c) : WrittenSince c₀.server c.server := by
  induction moves generalizing c₀ with
  | nil =>
    cases hrun
    exact writtenSince_refl _
  | cons move moves ih =>
    obtain ⟨c₁, hstep, hrest⟩ := Runs.run_cons.mp hrun
    refine WrittenSince.trans ?_ (ih hrest)
    cases move with
    | poll w =>
      simp only [Conversation.step] at hstep
      split at hstep
      · split at hstep
        · cases hstep
          exact writtenSince_refl _
        · cases hstep
      · cases hstep
    | serve =>
      simp only [Conversation.step] at hstep
      split at hstep
      · cases hstep
      · cases hstep
        exact writtenSince_process _ _ _
    | other frame =>
      simp only [Conversation.step] at hstep
      split at hstep
      · cases hstep
      · cases hstep
        exact writtenSince_refl _

theorem SameData.writtenSince {s s' : SdoState OD cap} (h : SameData s s') : WrittenSince s' s :=
  ⟨[], by rw [h.writes, List.append_nil], h.od.symm⟩

theorem Stands.writtenSince {c : Conversation OD cap E R} (h : Stands ctx call Reliable o c) :
    WrittenSince c.server o.state := by
  cases h with
  | asks _ _ h => exact h.writtenSince
  | asked _ h => exact h.writtenSince
  | answered _ h => exact h.writtenSince
  | settled => exact writtenSince_refl _
  | broken _ _ hsame => exact hsame.writtenSince
  | failed _ hlate =>
    rcases hlate with ⟨-, h⟩ | ⟨client, frame, -, h⟩
    · exact h
    · exact h.writtenSince

/-- How a conversation can be over: by time, by the transport, or as the exchange ends. -/
theorem Stands.result {c : Conversation OD cap E R} {result : Except (DriverError E) R}
    (h : Stands ctx call Reliable o c) (hfinished : c.transfer = .finished result) :
    (result = .error .timeout ∨ ∃ e, result = .error (.transport e)) ∨
      ∃ answer, o.result = some answer ∧
        ((∃ outcome, call.turn o.client answer = .settled outcome ∧ result = outcome.mapError .sdo ∧
            c.server = o.state) ∨
          (call.turn o.client answer = .broken .protocolError ∧ result = .error (.sdo .protocolError) ∧
            SameData o.state c.server)) := by
  cases h with
  | asks | asked | answered => cases hfinished
  | settled hresult hturn =>
    cases hfinished
    exact .inr ⟨_, hresult, .inl ⟨_, hturn, rfl, rfl⟩⟩
  | broken hresult hturn hsame =>
    cases hfinished
    exact .inr ⟨_, hresult, .inr ⟨hturn, rfl, hsame⟩⟩
  | failed herror =>
    cases hfinished
    rcases herror with rfl | ⟨e, rfl⟩
    · exact .inl (.inl rfl)
    · exact .inl (.inr ⟨e, rfl⟩)

end

/-! ## Uploads -/

/-- What an upload brings: the object as the dictionary returns it, in the caller's buffer. -/
def uploadAnswer (od : OD) (index : UInt16) (subindex : UInt8) (buf : List UInt8) : Except SdoError Uploaded :=
  match ObjectDictionary.read od index subindex (FixedBuffer.filled 889 0) with
  | (.error e, _) => .error (.aborted (odReadAbort od index e))
  | (.ok len, data) =>
    if SdoDriver.maxTransfer < len.1 then .error .protocolError
    else if buf.length < len.1 then .error .tooLarge
    else .ok ⟨data.front len ++ buf.drop len, len, true⟩

/-- The only answers of an upload that is over are those of the dictionary. -/
theorem uploadAnswer_of_outcome {s : SdoState OD cap} {index : UInt16} {subindex : UInt8}
    (buf : List UInt8) {answer : SdoClientResult} {client : SdoClient SdoDriver.maxTransfer} {transfer : Option TransferState}
    (h : UploadOutcome s index answer client transfer
      (ObjectDictionary.read s.od index subindex (FixedBuffer.filled 889 0))) :
    answer ≠ .ignoredAbort ∧
    (∀ outcome, uploadTurn buf client answer = .settled outcome →
      outcome = uploadAnswer s.od index subindex buf ∧ transfer = none) ∧
    (uploadTurn buf client answer = .broken .protocolError →
      uploadAnswer s.od index subindex buf = .error .protocolError) := by
  unfold uploadAnswer
  generalize ObjectDictionary.read s.od index subindex (FixedBuffer.filled 889 0) = got at h ⊢
  rcases got with ⟨e | len, data⟩
  · obtain ⟨rfl, rfl⟩ := h
    refine ⟨by simp, ?_, ?_⟩
    · rintro outcome ⟨⟩
      exact ⟨rfl, rfl⟩
    · rintro ⟨⟩
  · rw [UploadOutcome] at h
    dsimp only
    by_cases hlong : SdoDriver.maxTransfer < len.1
    · rw [if_pos hlong] at h ⊢
      subst h
      refine ⟨by simp, ?_, fun _ => rfl⟩
      rintro outcome ⟨⟩
    · rw [if_neg hlong] at h ⊢
      obtain ⟨rfl, hdata, hsize, rfl⟩ := h
      refine ⟨by simp, ?_, ?_⟩
      · intro outcome hturn
        simp only [uploadTurn] at hturn
        have hfront : client.data.take len.1 = data.front len := by
          rw [hdata]
          exact List.take_of_length_le (data.length_front len.2).le
        by_cases hbuf : buf.length < len.1
        · rw [if_pos hbuf] at hturn ⊢
          cases hturn
          exact ⟨rfl, rfl⟩
        · rw [if_neg hbuf] at hturn ⊢
          rw [hfront, hsize] at hturn
          cases hturn
          exact ⟨rfl, rfl⟩
      · intro hturn
        simp only [uploadTurn] at hturn
        split at hturn <;> cases hturn

/-- An upload against a server, in any order of polls, requests and other traffic. The server's
data never change. When the upload is over, time or the transport has ended it, or its result is
what the dictionary returned: all of its bytes, or the abort for why there are none. -/
theorem driver_uploads (ctx : ℕ → SdoContext) (d : SdoDriver) (s : SdoState OD cap)
    (free : s.server.inBlockDownloadData = false) (index : UInt16) (subindex : UInt8) (buf : List UInt8)
    (deadline : Option TransferDeadline) {moves : List (Move E)} {c : Conversation OD cap E Uploaded}
    (hrun : Runs.run (Conversation.step ctx (d.uploadCall index subindex buf deadline))
      (.start (d.startUpload index subindex) s) moves = some c) :
    c.server.od = s.od ∧ c.server.writes = s.writes ∧
    ∀ result, c.transfer = .finished result →
      result = (uploadAnswer s.od index subindex buf).mapError .sdo ∨
        result = .error .timeout ∨ ∃ e, result = .error (.transport e) := by
  obtain ⟨fuel, answer, client, transfer, hexchange, houtcome⟩ :=
    exchange_upload_outcome ctx (SdoClient.new d.target : SdoClient SdoDriver.maxTransfer) s free index subindex
  obtain ⟨hignored, hsettled, hbroken⟩ := uploadAnswer_of_outcome buf houtcome
  have hstands := stands_run ⟨fuel, hexchange⟩ (by simp) (by simpa using hignored)
    (fun h : False => h.elim) False.elim hrun
  obtain ⟨ws, hwrites, hod⟩ := writtenSince_run hrun
  obtain ⟨ws', hwrites', -⟩ := hstands.writtenSince
  have hnone : ws = [] := by
    have hlen := congrArg List.length (hwrites'.trans (by rw [hwrites]))
    simp only [SdoState.setTransfer, Conversation.start, List.length_append] at hlen
    exact List.eq_nil_of_length_eq_zero (by omega)
  subst hnone
  refine ⟨hod, hwrites.trans (List.append_nil _), fun result hfinished => ?_⟩
  rcases hstands.result hfinished with htime | ⟨answer', hresult, ⟨outcome, hturn, rfl, -⟩ | ⟨hturn, rfl, -⟩⟩
  · exact .inr htime
  · cases hresult
    rw [(hsettled outcome hturn).1]
    exact .inl rfl
  · cases hresult
    rw [hbroken hturn]
    exact .inl rfl

/-- A poll at a time at which the transport takes whatever it is given. -/
def readyWake (now : UInt64) : Wake Unit := ⟨now, now, .ready (.ok ()), .pending, false, .ready (.ok ())⟩

def sampleServer : SdoState Derive.GeneratedOd 4 := ⟨.new, Derive.sampleOd, .empty, []⟩

/-- A heartbeat arrives before the answer. -/
def sampleMoves (answer : CanFrame) : List (Move Unit) :=
  [.poll (readyWake 0), .other (.literal 0x701 [0x05]), .serve,
    .poll { readyWake 5 with receive := .ready (.ok (.literal 0x701 [0x05])) },
    .poll { readyWake 9 with receive := .ready (.ok answer) }]

theorem driver_uploads_sample :
    ∃ c, Runs.run (Conversation.step (fun _ => .standalone .preOperational 0)
        ((⟨Derive.sampleNode⟩ : SdoDriver).uploadCall 0x1000 0 [0, 0, 0, 0, 0] none))
        (.start ((⟨Derive.sampleNode⟩ : SdoDriver).startUpload 0x1000 0) sampleServer)
        (sampleMoves (.literal 0x585 [0x43, 0, 0x10, 0, 0x91, 0x01, 0, 0])) = some c ∧
      c.transfer = .finished (.ok ⟨[0x91, 0x01, 0, 0, 0], 4, true⟩) ∧ c.server.writes = [] := by
  have hrun := Eq.refl (Runs.run (Conversation.step (fun _ => .standalone .preOperational 0)
    ((⟨Derive.sampleNode⟩ : SdoDriver).uploadCall 0x1000 0 [0, 0, 0, 0, 0] none))
    (.start ((⟨Derive.sampleNode⟩ : SdoDriver).startUpload 0x1000 0) sampleServer)
    (sampleMoves (.literal 0x585 [0x43, 0, 0x10, 0, 0x91, 0x01, 0, 0])))
  exact ⟨_, hrun, rfl, (driver_uploads _ ⟨Derive.sampleNode⟩ sampleServer rfl 0x1000 0 [0, 0, 0, 0, 0] none hrun).2.1⟩

/-! ## Downloads -/

/-- What it takes for a value to be written: the lock at the first request, and validation and
dictionary at the request that completes the value. -/
def Writable (od : OD) (ctx : ℕ → SdoContext) (index : UInt16) (subindex : UInt8) (value : List UInt8) : Prop :=
  pdoConfigLocked (ctx 0) index = false ∧ Accepts od (ctx (commitFrame value)) index subindex value

theorem exchange_download {BUF : ℕ} (ctx : ℕ → SdoContext) {client client' : SdoClient BUF} (s : SdoState OD cap)
    (free : s.server.inBlockDownloadData = false) {index : UInt16} {subindex : UInt8} {value : List UInt8}
    {request : CanFrame} (hbuf : BUF ≤ 889)
    (hstart : client.startDownload index subindex value = (client', some request)) :
    ∃ fuel result client'' s',
      exchange ctx fuel 0 client' s request = some ⟨some result, client'', s'⟩ ∧
      DownloadEnds (Writable s.od ctx index subindex value) s s' index subindex value result := by
  unfold SdoClient.startDownload at hstart
  by_cases hshort : 0 < value.length ∧ value.length ≤ 4
  · rw [if_pos hshort] at hstart
    cases hstart
    obtain ⟨result, client'', s', hrun, hends⟩ := exchange_expeditedDownload_ends ctx
      { client with
        state := .waitingDownloadInitResponse index subindex
        totalLen := value.length } client s free index subindex hshort.1 hshort.2 rfl rfl
    have hframe : commitFrame value = 0 := if_pos hshort
    refine ⟨1, result, client'', s', hrun, ?_⟩
    rw [Writable, hframe]
    exact hends
  rw [if_neg hshort] at hstart
  by_cases hfit : BUF < value.length
  · rw [if_pos hfit] at hstart
    cases hstart
  rw [if_neg hfit] at hstart
  cases hstart
  have hwritten := client.buf.front_write 0 value (by omega)
  rw [Nat.zero_add, FixedBuffer.front_zero, List.nil_append] at hwritten
  obtain ⟨fuel, result, client'', s', hrun, hends⟩ := exchange_segmentedDownload_ends ctx
    { client with
      state := .waitingDownloadInitResponse index subindex
      buf := client.buf.write 0 value
      totalLen := value.length
      offset := 0 } client s free index subindex hshort (by omega) rfl rfl hwritten rfl
  exact ⟨fuel, result, client'', s', hrun,
    hends.congr (and_congr_right fun _ => (and_iff_right (by omega)).symm)⟩

theorem DownloadEnds.answer_ne {writable : Prop} {s s' : SdoState OD cap} {index : UInt16}
    {subindex : UInt8} {value : List UInt8} {answer : SdoClientResult} (h : DownloadEnds writable s s' index subindex value answer) :
    answer ≠ .ignoredAbort := by
  by_cases hw : writable
  · rw [(h.outcome.1 hw).1]
    simp
  · obtain ⟨⟨code, rfl⟩, -⟩ := h.outcome.2 hw
    simp

/-- Between a beginning and an end with at most one write there is at most that write. -/
theorem WrittenSince.between {s s' s'' : SdoState OD cap} {w : OdWrite} (h : WrittenSince s s')
    (h' : WrittenSince s' s'') (hend : s''.writes = s.writes ∨ s''.writes = s.writes ++ [w]) :
    (s'.writes = s.writes ∧ s'.od = s.od) ∨
      (s''.writes = s.writes ++ [w] ∧ s'.writes = s.writes ++ [w] ∧
        s'.od = (ObjectDictionary.write s.od w.index w.subindex w.data).2) := by
  obtain ⟨ws, hwrites, hod⟩ := h
  obtain ⟨ws', hwrites', -⟩ := h'
  rw [hwrites, List.append_assoc] at hwrites'
  have hcases : ws = [] ∨ (ws = [w] ∧ s''.writes = s.writes ++ [w]) := by
    rcases hend with hend | hend
    · rw [hend] at hwrites'
      exact .inl (List.append_eq_nil_iff.mp (List.self_eq_append_right.mp hwrites')).1
    · have hone : [w] = ws ++ ws' := List.append_cancel_left (hend.symm.trans hwrites')
      cases ws with
      | nil => exact .inl rfl
      | cons first rest =>
        obtain ⟨hfirst, hrest⟩ := List.cons.inj hone
        rw [← hfirst, (List.append_eq_nil_iff.mp hrest.symm).1]
        exact .inr ⟨rfl, hend⟩
  rcases hcases with rfl | ⟨rfl, hw⟩
  · exact .inl ⟨hwrites.trans (List.append_nil _), hod⟩
  · exact .inr ⟨hw, hwrites, hod⟩

/-- Nothing but other traffic follows a call that is over before its first frame. -/
theorem finished_run {ctx : ℕ → SdoContext} {call : Call R} {result : Except (DriverError E) R}
    {c₀ c : Conversation OD cap E R} {moves : List (Move E)} (hfinished : c₀.transfer = .finished result)
    (hrequests : c₀.requests = []) (hrun : Runs.run (Conversation.step ctx call) c₀ moves = some c) :
    c.transfer = .finished result ∧ c.server = c₀.server := by
  induction moves generalizing c₀ with
  | nil =>
    cases hrun
    exact ⟨hfinished, rfl⟩
  | cons move moves ih =>
    obtain ⟨c₁, hstep, hrest⟩ := Runs.run_cons.mp hrun
    cases move with
    | poll w =>
      simp only [Conversation.step, hfinished] at hstep
      cases hstep
    | serve =>
      simp only [Conversation.step, hrequests] at hstep
      cases hstep
    | other frame =>
      rw [Conversation.step] at hstep
      split at hstep
      · cases hstep
      · cases hstep
        obtain ⟨htransfer, hserver⟩ := @ih { c₀ with inbox := c₀.inbox ++ [frame] } hfinished hrequests hrest
        exact ⟨htransfer, hserver⟩

theorem tooLong_of_startDownload {BUF : ℕ} {client client' : SdoClient BUF} {index : UInt16} {subindex : UInt8}
    {value : List UInt8} (h : client.startDownload index subindex value = (client', none)) :
    BUF < value.length := by
  unfold SdoClient.startDownload at h
  split at h
  · cases h
  split at h
  · assumption
  · cases h

/-- What the result of a download says about the write. -/
def TellsWrite (s s' : SdoState OD cap) (writable : Prop) (index : UInt16) (subindex : UInt8)
    (value : List UInt8) : Except (DriverError E) Unit → Prop
  | .ok () => writable ∧ s'.writes = s.writes ++ [⟨index, subindex, value, true⟩]
  | .error (.sdo (.aborted _)) => ¬writable
  | .error (.sdo .tooLarge) => SdoDriver.maxTransfer < value.length ∧ s'.writes = s.writes
  | .error (.sdo .protocolError) => False
  | .error (.transport _) => True
  | .error .timeout => True

/-- A download against a server, in any order of polls, requests and other traffic, and whatever
ends it. The value is written at most once, as it is and where it belongs, and with success
exactly if lock, validation and dictionary take it. A success tells that it is written, an abort
that it could not be. -/
theorem driver_downloads (ctx : ℕ → SdoContext) (d : SdoDriver) (s : SdoState OD cap)
    (free : s.server.inBlockDownloadData = false) (index : UInt16) (subindex : UInt8) (value : List UInt8)
    (deadline : Option TransferDeadline) {moves : List (Move E)} {c : Conversation OD cap E Unit}
    (hrun : Runs.run (Conversation.step ctx (d.downloadCall index subindex deadline))
      (.start (d.startDownload index subindex value) s) moves = some c) :
    ((c.server.writes = s.writes ∧ c.server.od = s.od) ∨
      ∃ ok, (ok = true ↔ Writable s.od ctx index subindex value) ∧
        c.server.writes = s.writes ++ [⟨index, subindex, value, ok⟩] ∧
        c.server.od = (ObjectDictionary.write s.od index subindex value).2) ∧
    ∀ result, c.transfer = .finished result →
      TellsWrite s c.server (Writable s.od ctx index subindex value) index subindex value result := by
  unfold SdoDriver.startDownload at hrun
  rcases hstart : (SdoClient.new d.target).startDownload index subindex value with ⟨client, _ | request⟩
  · rw [hstart] at hrun
    obtain ⟨hfinished, hserver⟩ := finished_run rfl rfl hrun
    rw [hserver]
    refine ⟨.inl ⟨rfl, rfl⟩, fun result hresult => ?_⟩
    cases hfinished.symm.trans hresult
    exact ⟨tooLong_of_startDownload hstart, rfl⟩
  rw [hstart] at hrun
  obtain ⟨fuel, answer, client', s', hexchange, hends⟩ :=
    exchange_download ctx s free (by decide : SdoDriver.maxTransfer ≤ 889) hstart
  have hstands := stands_run ⟨fuel, hexchange⟩ (by simp) (by simpa using hends.answer_ne) (fun h : False => h.elim)
    False.elim hrun
  have hwritten := writtenSince_run hrun
  refine ⟨?_, fun result hfinished => ?_⟩
  · by_cases hw : Writable s.od ctx index subindex value
    · obtain ⟨-, hwrites, -⟩ := hends.outcome.1 hw
      rcases hwritten.between hstands.writtenSince (.inr hwrites) with hbefore | ⟨-, hafter, hod⟩
      · exact .inl hbefore
      · exact .inr ⟨true, iff_of_true rfl hw, hafter, hod⟩
    · obtain ⟨-, hrefused⟩ := hends.outcome.2 hw
      have hend := hrefused.imp And.left And.left
      rcases hwritten.between hstands.writtenSince hend with hbefore | ⟨-, hafter, hod⟩
      · exact .inl hbefore
      · exact .inr ⟨false, iff_of_false Bool.false_ne_true hw, hafter, hod⟩
  · rcases hstands.result hfinished with (rfl | ⟨e, rfl⟩) | ⟨answer', hresult, hturns⟩
    · trivial
    · trivial
    cases hresult
    by_cases hw : Writable s.od ctx index subindex value
    · obtain ⟨rfl, hwrites, -⟩ := hends.outcome.1 hw
      rcases hturns with ⟨outcome, hturn, rfl, hserver⟩ | ⟨hturn, -⟩
      · cases hturn
        exact ⟨hw, hserver ▸ hwrites⟩
      · cases hturn
    · obtain ⟨⟨code, rfl⟩, -⟩ := hends.outcome.2 hw
      rcases hturns with ⟨outcome, hturn, rfl, -⟩ | ⟨hturn, -⟩
      · cases hturn
        exact hw
      · cases hturn

theorem driver_downloads_sample :
    ∃ c, Runs.run (Conversation.step (fun _ => .standalone .preOperational 0)
        ((⟨Derive.sampleNode⟩ : SdoDriver).downloadCall 0x1017 0 none))
        (.start ((⟨Derive.sampleNode⟩ : SdoDriver).startDownload 0x1017 0 [0xE8, 0x03]) sampleServer)
        (sampleMoves (.literal 0x585 [0x60, 0x17, 0x10, 0, 0, 0, 0, 0])) = some c ∧
      c.transfer = .finished (.ok ()) ∧ c.server.writes = [⟨0x1017, 0, [0xE8, 0x03], true⟩] := by
  have hrun := Eq.refl (Runs.run (Conversation.step (fun _ => .standalone .preOperational 0)
    ((⟨Derive.sampleNode⟩ : SdoDriver).downloadCall 0x1017 0 none))
    (.start ((⟨Derive.sampleNode⟩ : SdoDriver).startDownload 0x1017 0 [0xE8, 0x03]) sampleServer)
    (sampleMoves (.literal 0x585 [0x60, 0x17, 0x10, 0, 0, 0, 0, 0])))
  exact ⟨_, hrun, rfl, ((driver_downloads _ ⟨Derive.sampleNode⟩ sampleServer rfl 0x1017 0 [0xE8, 0x03] none hrun).2
    (.ok ()) rfl).2⟩

/-! ## The channel afterwards -/

/-- Once everything it was sent is processed, the server has no transfer left. -/
theorem Stands.idle {ctx : ℕ → SdoContext} {call : Call R} {o : Outcome OD cap SdoDriver.maxTransfer}
    {c : Conversation OD cap E R} {result : Except (DriverError E) R} (h : Stands ctx call True o c)
    (hfinished : c.transfer = .finished result) (hrequests : c.requests = [])
    (htransport : ∀ e, result ≠ .error (.transport e))
    (hsettled : ∀ answer outcome, o.result = some answer → call.turn o.client answer = .settled outcome →
      o.state.server.transfer = none) : c.server.server.transfer = none := by
  cases h with
  | asks | asked | answered => cases hfinished
  | settled hresult hturn => exact hsettled _ _ hresult hturn
  | broken _ _ _ _ hfree => exact (hfree trivial).resolve_left fun hne => hne hrequests
  | failed herror hlate haborts hfree =>
    cases hfinished
    obtain ⟨-, rfl⟩ := List.append_eq_nil_iff.mp hrequests
    rcases herror with rfl | ⟨e, rfl⟩
    · exact ((hfree trivial rfl).resolve_left fun hne => hne rfl).2
    · exact absurd rfl (htransport e)

/-- After a call of the driver the channel is free for the next one. However the call ends, short
of a failure of the transport, and in whatever order things happen: when the server has processed
what it was sent, the abort of a call that broke off included, no transfer is left in it. -/
theorem channel_free (ctx : ℕ → SdoContext) (d : SdoDriver) (s : SdoState OD cap)
    (idle : s.server.transfer = none) (index : UInt16) (subindex : UInt8)
    (deadline : Option TransferDeadline) {moves : List (Move E)}
    (taken : ∀ w, .poll w ∈ moves → w.takesAbort = true) :
    (∀ (buf : List UInt8) (c : Conversation OD cap E Uploaded) result,
      Runs.run (Conversation.step ctx (d.uploadCall index subindex buf deadline))
        (.start (d.startUpload index subindex) s) moves = some c →
      c.transfer = .finished result → (∀ e, result ≠ .error (.transport e)) → c.requests = [] →
      c.server.server.transfer = none) ∧
    ∀ (value : List UInt8) (c : Conversation OD cap E Unit) result,
      Runs.run (Conversation.step ctx (d.downloadCall index subindex deadline))
        (.start (d.startDownload index subindex value) s) moves = some c →
      c.transfer = .finished result → (∀ e, result ≠ .error (.transport e)) → c.requests = [] →
      c.server.server.transfer = none := by
  have free : s.server.inBlockDownloadData = false := by
    rw [SdoServer.inBlockDownloadData, idle]
  refine ⟨fun buf c result hrun hfinished htransport hrequests => ?_,
    fun value c result hrun hfinished htransport hrequests => ?_⟩
  · obtain ⟨fuel, answer, client, transfer, hexchange, houtcome⟩ :=
      exchange_upload_outcome ctx (SdoClient.new d.target : SdoClient SdoDriver.maxTransfer) s free index subindex
    obtain ⟨hignored, hsettled, -⟩ := uploadAnswer_of_outcome buf houtcome
    have hstands := stands_run ⟨fuel, hexchange⟩ (by simp) (by simpa using hignored)
      (fun _ : True => idle) (fun _ => taken) hrun
    refine hstands.idle hfinished hrequests htransport ?_
    intro answer' outcome hresult hturn
    cases hresult
    exact (hsettled outcome hturn).2
  · unfold SdoDriver.startDownload at hrun
    rcases hstart : (SdoClient.new d.target).startDownload index subindex value with ⟨client, _ | request⟩
    · rw [hstart] at hrun
      obtain ⟨-, hserver⟩ := finished_run rfl rfl hrun
      rw [hserver]
      exact idle
    rw [hstart] at hrun
    obtain ⟨fuel, answer, client', s', hexchange, hends⟩ :=
      exchange_download ctx s free (by decide : SdoDriver.maxTransfer ≤ 889) hstart
    have hstands := stands_run ⟨fuel, hexchange⟩ (by simp) (by simpa using hends.answer_ne)
      (fun _ : True => idle) (fun _ => taken) hrun
    exact hstands.idle hfinished hrequests htransport fun _ _ _ _ => hends.idle

/-- The request is still under way when the deadline passes; the abort follows it. -/
def lateMoves : List (Move Unit) := [.poll (readyWake 0), .poll (readyWake 100), .serve, .serve]

theorem channel_free_sample :
    ∃ c, Runs.run (Conversation.step (fun _ => .standalone .preOperational 0)
        ((⟨Derive.sampleNode⟩ : SdoDriver).uploadCall 0x2020 0 [] (some ⟨0, 100⟩)))
        (.start ((⟨Derive.sampleNode⟩ : SdoDriver).startUpload 0x2020 0) sampleServer) lateMoves = some c ∧
      c.transfer = .finished (.error .timeout) ∧ c.server.server.transfer = none := by
  have taken : ∀ w, .poll w ∈ lateMoves → w.takesAbort = true := by
    intro w hw
    simp only [lateMoves, List.mem_cons, Move.poll.injEq, reduceCtorEq, List.not_mem_nil, or_false] at hw
    rcases hw with rfl | rfl <;> rfl
  have hrun := Eq.refl (Runs.run (Conversation.step (fun _ => .standalone .preOperational 0)
    ((⟨Derive.sampleNode⟩ : SdoDriver).uploadCall 0x2020 0 [] (some ⟨0, 100⟩)))
    (.start ((⟨Derive.sampleNode⟩ : SdoDriver).startUpload 0x2020 0) sampleServer) lateMoves)
  exact ⟨_, hrun, rfl, (channel_free _ ⟨Derive.sampleNode⟩ sampleServer rfl 0x2020 0 (some ⟨0, 100⟩) taken).1 []
    _ (.error .timeout) hrun rfl (by simp) rfl⟩

end Canopen.Sdo
