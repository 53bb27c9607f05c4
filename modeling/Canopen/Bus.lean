import Canopen.Transport
import Canopen.Lib.Deque
import Canopen.Lib.Runs

/-!
# The shared bus

Publishers fan every frame out to the subscriptions of the bus, each with its own
bounded queue, filter and overflow policy. The list of subscriptions is behind a lock
that a publisher holds during its fan-out; every queue has a lock of its own, so
receivers interleave with a fan-out between two subscriptions. Counting an overflow
and changing the queue are one step here: a `take_overflow_count` that falls between
the two touches only the counter and may as well come after both.
-/

namespace Canopen

/-- What to do when a subscription queue is full. -/
inductive OverflowPolicy
  /-- Drop the oldest queued frame to make room. -/
  | dropOldest
  /-- Drop the incoming frame. -/
  | dropNewest
  deriving DecidableEq, Repr

structure SubscriptionShared where
  capacity : ℕ
  policy : OverflowPolicy
  filter : Option (CanFrame → Bool)
  queue : Deque CanFrame capacity
  overflow : UInt64
  capacity_pos : 0 < capacity

namespace SubscriptionShared

def new (capacity : ℕ) (policy : OverflowPolicy) (filter : Option (CanFrame → Bool))
    (h : 0 < capacity) : SubscriptionShared := ⟨capacity, policy, filter, .empty, 0, h⟩

def accepts (s : SubscriptionShared) (frame : CanFrame) : Bool :=
  match s.filter with
  | some f => f frame
  | none => true

def push (s : SubscriptionShared) (frame : CanFrame) : SubscriptionShared :=
  if s.queue.isFull then
    match s.policy with
    | .dropOldest =>
      { s with overflow := s.overflow + 1, queue := s.queue.popFront.pushBack frame }
    | .dropNewest => { s with overflow := s.overflow + 1 }
  else { s with queue := s.queue.pushBack frame }

def offer (s : SubscriptionShared) (frame : CanFrame) : SubscriptionShared :=
  if s.accepts frame then s.push frame else s

def tryRecv (s : SubscriptionShared) : SubscriptionShared × Option CanFrame :=
  ({ s with queue := s.queue.popFront }, s.queue.items.head?)

def takeOverflowCount (s : SubscriptionShared) : SubscriptionShared × UInt64 :=
  ({ s with overflow := 0 }, s.overflow)

end SubscriptionShared

/-- A subscription in memory. It is live as long as its receiving end exists; the bus
itself holds weak references only. -/
structure Subscription where
  shared : SubscriptionShared
  live : Bool

/-- A publisher that holds the list lock: the subscriptions it has yet to visit and
those it retains. -/
structure Fanout where
  frame : CanFrame
  rest : List ℕ
  kept : List ℕ

structure SharedCanBus where
  /-- Every subscription ever made; the weak references below are positions here. -/
  pool : List Subscription
  subs : List ℕ
  fanout : Option Fanout

/-- The steps of any number of publishers, subscribers and receivers. -/
inductive BusAction
  | subscribeWith (capacity : ℕ) (policy : OverflowPolicy) (filter : Option (CanFrame → Bool))
  /-- A publisher takes the list lock with a frame. -/
  | publish (frame : CanFrame)
  /-- The publisher handles the next subscription of its fan-out. -/
  | visit
  /-- The publisher releases the list lock. -/
  | unlock
  | tryRecv (id : ℕ)
  | takeOverflowCount (id : ℕ)
  /-- The receiving end is dropped. -/
  | drop (id : ℕ)
  | subscriberCount

namespace SharedCanBus

def new : SharedCanBus := ⟨[], [], none⟩

/-- The subscription `id` while its receiving end exists. -/
def upgrade (s : SharedCanBus) (id : ℕ) : Option SubscriptionShared :=
  match s.pool[id]? with
  | some sub => if sub.live then some sub.shared else none
  | none => none

def setShared (s : SharedCanBus) (id : ℕ) (shared : SubscriptionShared) : SharedCanBus :=
  { s with pool := s.pool.modify id (fun sub => { sub with shared := shared }) }

/-- One step, or `none` when it is not enabled. -/
def step (s : SharedCanBus) : BusAction → Option SharedCanBus
  | .subscribeWith capacity policy filter =>
    match s.fanout with
    | some _ => none
    | none =>
      if h : 0 < capacity then
        some { s with
          pool := s.pool ++ [⟨.new capacity policy filter h, true⟩]
          subs := s.subs ++ [s.pool.length] }
      else none
  | .publish frame =>
    match s.fanout with
    | some _ => none
    | none => some { s with fanout := some ⟨frame, s.subs, []⟩ }
  | .visit =>
    match s.fanout with
    | some ⟨frame, id :: rest, kept⟩ =>
      match s.upgrade id with
      | some shared =>
        some { s.setShared id (shared.offer frame) with
          fanout := some ⟨frame, rest, kept ++ [id]⟩ }
      | none => some { s with fanout := some ⟨frame, rest, kept⟩ }
    | _ => none
  | .unlock =>
    match s.fanout with
    | some ⟨_, [], kept⟩ => some { s with subs := kept, fanout := none }
    | _ => none
  | .tryRecv id => (s.upgrade id).map fun shared => s.setShared id shared.tryRecv.1
  | .takeOverflowCount id =>
    (s.upgrade id).map fun shared => s.setShared id shared.takeOverflowCount.1
  | .drop id =>
    (s.upgrade id).map fun _ =>
      { s with pool := s.pool.modify id (fun sub => { sub with live := false }) }
  | .subscriberCount =>
    match s.fanout with
    | some _ => none
    | none => some { s with subs := s.subs.filter (fun id => (s.upgrade id).isSome) }

end SharedCanBus

/-! ## One subscription -/

namespace SubscriptionShared

variable {s : SubscriptionShared}

/-- The frames received and queued come from the accepted ones in order. Under
`dropOldest` the queue holds the most recent of those later than the last one
received, as many as fit. -/
structure Ledger (s : SubscriptionShared) (accepted received : List CanFrame) : Prop where
  fifo : (received ++ s.queue.items).Sublist accepted
  recent : s.policy = .dropOldest → ∃ before rest, accepted = before ++ rest ∧
    received.Sublist before ∧ received.getLast? = before.getLast? ∧
    s.queue.items = rest.drop (rest.length - s.capacity)

theorem push_cases (s : SubscriptionShared) (frame : CanFrame) :
    (s.queue.items.length < s.capacity ∧ (s.push frame).queue.items = s.queue.items ++ [frame] ∧
      (s.push frame).overflow = s.overflow) ∨
    (s.queue.items.length = s.capacity ∧ s.policy = .dropOldest ∧
      (s.push frame).queue.items = s.queue.items.tail ++ [frame] ∧
      (s.push frame).overflow = s.overflow + 1) ∨
    (s.queue.items.length = s.capacity ∧ s.policy = .dropNewest ∧
      (s.push frame).queue.items = s.queue.items ∧
      (s.push frame).overflow = s.overflow + 1) := by
  have hle := s.queue.length_le
  by_cases hfull : s.queue.isFull = true
  · have hlen : s.queue.items.length = s.capacity := by simpa [Deque.isFull] using hfull
    have hroom : s.queue.popFront.isFull = false := by
      have hpos := s.capacity_pos
      simp [Deque.isFull, Deque.popFront]
      omega
    unfold push
    rw [if_pos hfull]
    cases hpolicy : s.policy with
    | dropOldest => exact .inr (.inl ⟨hlen, rfl, Deque.pushBack_items hroom frame, rfl⟩)
    | dropNewest => exact .inr (.inr ⟨hlen, rfl, rfl, rfl⟩)
  · have hroom : s.queue.isFull = false := by simpa using hfull
    have hne : s.queue.items.length ≠ s.capacity := by simpa [Deque.isFull] using hroom
    unfold push
    rw [if_neg hfull]
    exact .inl ⟨by omega, Deque.pushBack_items hroom frame, rfl⟩

theorem push_capacity (s : SubscriptionShared) (frame : CanFrame) :
    (s.push frame).capacity = s.capacity := by
  unfold push
  split_ifs
  · split <;> rfl
  · rfl

theorem push_policy (s : SubscriptionShared) (frame : CanFrame) :
    (s.push frame).policy = s.policy := by
  unfold push
  split_ifs
  · split <;> rfl
  · rfl

theorem push_filter (s : SubscriptionShared) (frame : CanFrame) :
    (s.push frame).filter = s.filter := by
  unfold push
  split_ifs
  · split <;> rfl
  · rfl

theorem ledger_new (capacity : ℕ) (policy : OverflowPolicy) (filter : Option (CanFrame → Bool))
    (h : 0 < capacity) : (new capacity policy filter h).Ledger [] [] :=
  ⟨List.Sublist.refl _, fun _ => ⟨[], [], rfl, List.Sublist.refl _, rfl, List.drop_nil.symm⟩⟩

variable {accepted received : List CanFrame}

theorem Ledger.push (h : s.Ledger accepted received) (frame : CanFrame) :
    (s.push frame).Ledger (accepted ++ [frame]) received := by
  have hfifo := h.fifo
  refine ⟨?_, fun hpolicy => ?_⟩
  · rcases push_cases s frame with ⟨-, hitems, -⟩ | ⟨-, -, hitems, -⟩ | ⟨-, -, hitems, -⟩
    · rw [hitems, ← List.append_assoc]
      exact hfifo.append (List.Sublist.refl _)
    · rw [hitems, ← List.append_assoc]
      have htail := (List.tail_sublist s.queue.items).append_left received
      exact (htail.trans hfifo).append (List.Sublist.refl _)
    · rw [hitems]
      exact hfifo.trans (List.sublist_append_left _ _)
  · rw [push_policy] at hpolicy
    obtain ⟨before, rest, hsplit, hsub, hlast, hqueue⟩ := h.recent hpolicy
    have hlen := congrArg List.length hqueue
    rw [List.length_drop] at hlen
    refine ⟨before, rest ++ [frame], by rw [hsplit, List.append_assoc], hsub, hlast, ?_⟩
    have hcap := push_capacity s frame
    rcases push_cases s frame with ⟨hroom, hitems, -⟩ | ⟨hfull, -, hitems, -⟩ | ⟨-, hnewest, -, -⟩
    · -- with room in the queue nothing later than the last received frame is missing
      rw [hitems, hqueue, hcap, List.length_append, List.length_singleton,
        List.drop_append_of_le_length (by omega)]
      congr 2
      omega
    · have hpos := s.capacity_pos
      rw [hitems, hqueue, hcap, List.length_append, List.length_singleton, List.tail_drop,
        List.drop_append_of_le_length (by omega)]
      congr 2
      omega
    · rw [hpolicy] at hnewest
      cases hnewest

theorem Ledger.tryRecv (h : s.Ledger accepted received) {frame : CanFrame}
    (hhead : s.queue.items.head? = some frame) :
    s.tryRecv.1.Ledger accepted (received ++ [frame]) := by
  have hcons := List.cons_head?_tail hhead
  have hitems : s.tryRecv.1.queue.items = s.queue.items.tail := rfl
  refine ⟨?_, fun hpolicy => ?_⟩
  · rw [hitems, List.append_assoc, List.singleton_append, hcons]
    exact h.fifo
  · obtain ⟨before, rest, hsplit, hsub, hlast, hqueue⟩ := h.recent hpolicy
    have hle := s.queue.length_le
    rw [hqueue] at hcons
    -- the frames before the received one are received or lost
    have htake : rest.take (rest.length - s.capacity + 1) =
        rest.take (rest.length - s.capacity) ++ [frame] := by
      rw [List.take_add, ← hcons]
      rfl
    have hrest : rest.drop (rest.length - s.capacity + 1) = s.queue.items.tail := by
      rw [hqueue, List.tail_drop]
    refine ⟨before ++ rest.take (rest.length - s.capacity + 1),
      rest.drop (rest.length - s.capacity + 1), ?_, ?_, ?_, ?_⟩
    · rw [List.append_assoc, List.take_append_drop, hsplit]
    · rw [htake, ← List.append_assoc]
      exact (hsub.trans (List.sublist_append_left _ _)).append (List.Sublist.refl _)
    · rw [htake, ← List.append_assoc, List.getLast?_concat, List.getLast?_concat]
    · have hcap : s.tryRecv.1.capacity = s.capacity := rfl
      rw [hitems, hcap, ← hrest, List.length_drop]
      have hzero : rest.length - (rest.length - s.capacity + 1) - s.capacity = 0 := by omega
      rw [hzero, List.drop_zero]

/-- Every accepted frame was received, is queued, or is counted as overflow. -/
def Balanced (s : SubscriptionShared) (accepted received : List CanFrame) (reported : ℕ) : Prop :=
  accepted.length = received.length + s.queue.items.length + (reported + s.overflow.toNat)

/-- Counting one more overflow would wrap the counter. -/
def atLimit (s : SubscriptionShared) : Bool := s.queue.isFull && s.overflow == UInt64.ofNat (2 ^ 64 - 1)

theorem Balanced.push {reported : ℕ} (h : s.Balanced accepted received reported)
    (hlimit : s.atLimit = false) (frame : CanFrame) :
    (s.push frame).Balanced (accepted ++ [frame]) received reported := by
  unfold Balanced at h ⊢
  have hpos := s.capacity_pos
  have hcount : s.queue.items.length = s.capacity →
      (s.overflow + 1).toNat = s.overflow.toNat + 1 := by
    intro hfull
    have hne : s.overflow ≠ UInt64.ofNat (2 ^ 64 - 1) := by
      simpa [atLimit, Deque.isFull, hfull] using hlimit
    have hmax : s.overflow.toNat ≠ 2 ^ 64 - 1 := by
      intro heq
      exact hne (UInt64.toNat_inj.mp heq)
    have hlt := s.overflow.toNat_lt
    rw [UInt64.toNat_add, UInt64.toNat_one]
    omega
  rw [List.length_append, List.length_singleton]
  rcases push_cases s frame with ⟨-, hitems, hover⟩ | ⟨hfull, -, hitems, hover⟩ |
    ⟨hfull, -, hitems, hover⟩
  · rw [hitems, hover, List.length_append, List.length_singleton]
    omega
  · rw [hitems, hover, hcount hfull, List.length_append, List.length_singleton, List.length_tail]
    omega
  · rw [hitems, hover, hcount hfull]
    omega

theorem Balanced.tryRecv {reported : ℕ} (h : s.Balanced accepted received reported)
    {frame : CanFrame} (hhead : s.queue.items.head? = some frame) :
    s.tryRecv.1.Balanced accepted (received ++ [frame]) reported := by
  unfold Balanced at h ⊢
  have hcons := congrArg List.length (List.cons_head?_tail hhead)
  have hitems : s.tryRecv.1.queue.items = s.queue.items.tail := rfl
  have hover : s.tryRecv.1.overflow = s.overflow := rfl
  rw [List.length_cons] at hcons
  rw [hitems, hover, List.length_append, List.length_singleton]
  omega

theorem Balanced.takeOverflowCount {reported : ℕ} (h : s.Balanced accepted received reported) :
    s.takeOverflowCount.1.Balanced accepted received (reported + s.overflow.toNat) := by
  unfold Balanced at h ⊢
  have hitems : s.takeOverflowCount.1.queue.items = s.queue.items := rfl
  have hover : s.takeOverflowCount.1.overflow.toNat = 0 := rfl
  rw [hitems, hover]
  omega

end SubscriptionShared

/-! ## What happens on the bus -/

/-- What a step shows to the outside. -/
inductive BusEvent
  | published (frame : CanFrame)
  | offered (id : ℕ) (frame : CanFrame)
  | received (id : ℕ) (frame : CanFrame)
  | reported (id : ℕ) (count : UInt64)

namespace BusEvent

/-- The frames in the order in which their publishers took the list lock. -/
def publishedFrames (l : List BusEvent) : List CanFrame :=
  l.filterMap fun
    | .published frame => some frame
    | _ => none

def offeredTo (id : ℕ) (l : List BusEvent) : List CanFrame :=
  l.filterMap fun
    | .offered id' frame => if id' = id then some frame else none
    | _ => none

def receivedBy (id : ℕ) (l : List BusEvent) : List CanFrame :=
  l.filterMap fun
    | .received id' frame => if id' = id then some frame else none
    | _ => none

/-- The sum of the overflow counts the subscriber has taken. -/
def reportedTo (id : ℕ) (l : List BusEvent) : ℕ :=
  (l.map fun
    | .reported id' count => if id' = id then count.toNat else 0
    | _ => 0).sum

/-- What the events do to the subscription `id`. -/
def replay (id : ℕ) (s : SubscriptionShared) (l : List BusEvent) : SubscriptionShared :=
  l.foldl (fun s event => match event with
    | .offered id' frame => if id' = id then s.offer frame else s
    | .received id' _ => if id' = id then s.tryRecv.1 else s
    | .reported id' _ => if id' = id then s.takeOverflowCount.1 else s
    | .published _ => s) s

variable (id : ℕ) (l l' : List BusEvent)

theorem publishedFrames_append :
    publishedFrames (l ++ l') = publishedFrames l ++ publishedFrames l' := List.filterMap_append

theorem offeredTo_append : offeredTo id (l ++ l') = offeredTo id l ++ offeredTo id l' :=
  List.filterMap_append

theorem receivedBy_append : receivedBy id (l ++ l') = receivedBy id l ++ receivedBy id l' :=
  List.filterMap_append

theorem reportedTo_append : reportedTo id (l ++ l') = reportedTo id l + reportedTo id l' := by
  rw [reportedTo, List.map_append, List.sum_append]
  rfl

theorem replay_append (s : SubscriptionShared) :
    replay id s (l ++ l') = replay id (replay id s l) l' := List.foldl_append

end BusEvent

namespace SharedCanBus

def events (s : SharedCanBus) : BusAction → List BusEvent
  | .publish frame => [.published frame]
  | .visit =>
    match s.fanout with
    | some ⟨frame, id :: _, _⟩ => if (s.upgrade id).isSome then [.offered id frame] else []
    | _ => []
  | .tryRecv id => (((s.upgrade id).bind fun shared => shared.tryRecv.2).map (.received id)).toList
  | .takeOverflowCount id =>
    ((s.upgrade id).map fun shared => .reported id shared.takeOverflowCount.2).toList
  | _ => []

/-- The subscriptions on the list, during a fan-out those the publisher retains or has
yet to visit. -/
def listed (s : SharedCanBus) : List ℕ :=
  match s.fanout with
  | some fanout => fanout.kept ++ fanout.rest
  | none => s.subs

/-- The frame of the current fan-out when it has yet to visit `id`. -/
def inFlight (s : SharedCanBus) (id : ℕ) : List CanFrame :=
  match s.fanout with
  | some fanout => if id ∈ fanout.rest then [fanout.frame] else []
  | none => []

variable {s s' : SharedCanBus} {a : BusAction} {id : ℕ}

/-- Every live subscription is on the list, and none is on it twice. -/
structure Registered (s : SharedCanBus) : Prop where
  nodup : s.listed.Nodup
  bounded : ∀ id ∈ s.listed, id < s.pool.length
  live : ∀ id sub, s.pool[id]? = some sub → sub.live = true → id ∈ s.listed

theorem upgrade_eq_some {shared : SubscriptionShared} : s.upgrade id = some shared ↔
    ∃ sub, s.pool[id]? = some sub ∧ sub.live = true ∧ sub.shared = shared := by
  unfold upgrade
  cases hsub : s.pool[id]? with
  | none => simp
  | some sub =>
    cases hlive : sub.live <;> simp [hlive]

theorem upgrade_isSome : (s.upgrade id).isSome = true ↔
    ∃ sub, s.pool[id]? = some sub ∧ sub.live = true := by
  rw [Option.isSome_iff_exists]
  constructor
  · rintro ⟨shared, h⟩
    obtain ⟨sub, hsub, hlive, -⟩ := upgrade_eq_some.mp h
    exact ⟨sub, hsub, hlive⟩
  · rintro ⟨sub, hsub, hlive⟩
    exact ⟨sub.shared, upgrade_eq_some.mpr ⟨sub, hsub, hlive, rfl⟩⟩

theorem setShared_pool (s : SharedCanBus) (id j : ℕ) (shared : SubscriptionShared) :
    (s.setShared id shared).pool[j]? =
      if id = j then s.pool[j]?.map (fun sub => { sub with shared := shared }) else s.pool[j]? := by
  by_cases h : id = j
  · subst h
    rw [if_pos rfl]
    exact List.getElem?_modify_eq _ _ _
  · rw [if_neg h]
    exact List.getElem?_modify_ne _ _ h

/-- What a step can do. -/
inductive Stepped (s : SharedCanBus) : BusAction → SharedCanBus → Prop
  | subscribed {capacity : ℕ} (policy : OverflowPolicy) (filter : Option (CanFrame → Bool))
      (hpos : 0 < capacity) (hfree : s.fanout = none) :
      Stepped s (.subscribeWith capacity policy filter) { s with
        pool := s.pool ++ [⟨.new capacity policy filter hpos, true⟩]
        subs := s.subs ++ [s.pool.length] }
  | locked (frame : CanFrame) (hfree : s.fanout = none) :
      Stepped s (.publish frame) { s with fanout := some ⟨frame, s.subs, []⟩ }
  | offered {frame : CanFrame} {id : ℕ} {rest kept : List ℕ} {shared : SubscriptionShared}
      (hfan : s.fanout = some ⟨frame, id :: rest, kept⟩) (hup : s.upgrade id = some shared) :
      Stepped s .visit { s.setShared id (shared.offer frame) with
        fanout := some ⟨frame, rest, kept ++ [id]⟩ }
  | pruned {frame : CanFrame} {id : ℕ} {rest kept : List ℕ}
      (hfan : s.fanout = some ⟨frame, id :: rest, kept⟩) (hup : s.upgrade id = none) :
      Stepped s .visit { s with fanout := some ⟨frame, rest, kept⟩ }
  | unlocked {frame : CanFrame} {kept : List ℕ} (hfan : s.fanout = some ⟨frame, [], kept⟩) :
      Stepped s .unlock { s with subs := kept, fanout := none }
  | received {id : ℕ} {shared : SubscriptionShared} (hup : s.upgrade id = some shared) :
      Stepped s (.tryRecv id) (s.setShared id shared.tryRecv.1)
  | taken {id : ℕ} {shared : SubscriptionShared} (hup : s.upgrade id = some shared) :
      Stepped s (.takeOverflowCount id) (s.setShared id shared.takeOverflowCount.1)
  | dropped {id : ℕ} {shared : SubscriptionShared} (hup : s.upgrade id = some shared) :
      Stepped s (.drop id)
        { s with pool := s.pool.modify id (fun sub => { sub with live := false }) }
  | counted (hfree : s.fanout = none) :
      Stepped s .subscriberCount
        { s with subs := s.subs.filter (fun id => (s.upgrade id).isSome) }

theorem stepped_of_step (h : s.step a = some s') : Stepped s a s' := by
  cases a with
  | subscribeWith capacity policy filter =>
    cases hfan : s.fanout with
    | some fanout => simp [step, hfan] at h
    | none =>
      simp only [step, hfan] at h
      split at h
      · rename_i hpos
        cases h
        rw [← hfan]
        exact .subscribed policy filter hpos hfan
      · cases h
  | publish frame =>
    cases hfan : s.fanout with
    | some fanout => simp [step, hfan] at h
    | none =>
      simp only [step, hfan] at h
      cases h
      exact .locked frame hfan
  | visit =>
    simp only [step] at h
    split at h
    · rename_i frame id rest kept hfan
      split at h
      · rename_i shared hup
        cases h
        exact .offered hfan hup
      · rename_i hup
        cases h
        exact .pruned hfan hup
    · cases h
  | unlock =>
    simp only [step] at h
    split at h
    · rename_i hfan
      cases h
      exact .unlocked hfan
    · cases h
  | tryRecv id =>
    obtain ⟨shared, hup, rfl⟩ := Option.map_eq_some_iff.mp h
    exact .received hup
  | takeOverflowCount id =>
    obtain ⟨shared, hup, rfl⟩ := Option.map_eq_some_iff.mp h
    exact .taken hup
  | drop id =>
    obtain ⟨shared, hup, rfl⟩ := Option.map_eq_some_iff.mp h
    exact .dropped hup
  | subscriberCount =>
    cases hfan : s.fanout with
    | some fanout => simp [step, hfan] at h
    | none =>
      simp only [step, hfan] at h
      cases h
      rw [← hfan]
      exact .counted hfan

theorem Registered.congr (h : s.Registered) (hlisted : s'.listed = s.listed)
    (hlength : s'.pool.length = s.pool.length)
    (hlive : ∀ (id : ℕ) (sub' : Subscription), s'.pool[id]? = some sub' → sub'.live = true →
      ∃ sub, s.pool[id]? = some sub ∧ sub.live = true) : s'.Registered := by
  refine ⟨by rw [hlisted]; exact h.nodup, ?_, ?_⟩
  · intro id hid
    rw [hlisted] at hid
    rw [hlength]
    exact h.bounded id hid
  · intro id sub' hsub' hlive'
    obtain ⟨sub, hsub, hlive⟩ := hlive id sub' hsub' hlive'
    rw [hlisted]
    exact h.live id sub hsub hlive

theorem live_setShared {j : ℕ} {shared : SubscriptionShared} {sub' : Subscription}
    (h : (s.setShared id shared).pool[j]? = some sub') (hlive : sub'.live = true) :
    ∃ sub, s.pool[j]? = some sub ∧ sub.live = true := by
  rw [setShared_pool] at h
  split_ifs at h
  · obtain ⟨sub, hsub, rfl⟩ := Option.map_eq_some_iff.mp h
    exact ⟨sub, hsub, hlive⟩
  · exact ⟨sub', h, hlive⟩

theorem registered_step (h : s.Registered) (hstep : s.step a = some s') : s'.Registered := by
  have hnodup := h.nodup
  have hbounded := h.bounded
  have hlive := h.live
  cases stepped_of_step hstep with
  | @subscribed capacity policy filter hpos hfree =>
    simp only [listed, hfree] at hnodup hbounded hlive
    have hfresh : s.pool.length ∉ s.subs := fun hmem => (hbounded _ hmem).ne rfl
    refine ⟨?_, ?_, ?_⟩
    · simp only [listed, hfree]
      exact hnodup.append (List.nodup_singleton _) (by simpa using hfresh)
    · simp only [listed, hfree, List.mem_append, List.mem_singleton, List.length_append,
        List.length_singleton]
      rintro id (hid | rfl)
      · have := hbounded id hid
        omega
      · omega
    · simp only [listed, hfree, List.mem_append, List.mem_singleton]
      intro id sub hsub hsublive
      rcases Nat.lt_or_ge id s.pool.length with hlt | hge
      · rw [List.getElem?_append_left hlt] at hsub
        exact .inl (hlive id sub hsub hsublive)
      · have hid := (List.getElem?_eq_some_iff.mp hsub).1
        rw [List.length_append, List.length_singleton] at hid
        exact .inr (by omega)
  | locked frame hfree =>
    refine h.congr ?_ rfl (fun id sub hsub hsublive => ⟨sub, hsub, hsublive⟩)
    simp [listed, hfree]
  | @offered frame id rest kept shared hfan hup =>
    refine h.congr ?_ ?_ (fun j sub hsub hsublive => live_setShared hsub hsublive)
    · simp [listed, hfan]
    · exact List.length_modify ..
  | @pruned frame id rest kept hfan hup =>
    simp only [listed, hfan] at hnodup hbounded hlive
    refine ⟨?_, ?_, ?_⟩
    · exact hnodup.sublist ((List.sublist_cons_self id rest).append_left kept)
    · intro j hj
      refine hbounded j ?_
      simp only [listed, List.mem_append, List.mem_cons] at hj ⊢
      tauto
    · intro j sub hsub hsublive
      have hmem := hlive j sub hsub hsublive
      simp only [listed, List.mem_append, List.mem_cons] at hmem ⊢
      rcases hmem with hkept | rfl | hrest
      · exact .inl hkept
      · have hlive : s.upgrade j = some sub.shared := upgrade_eq_some.mpr ⟨sub, hsub, hsublive, rfl⟩
        rw [hup] at hlive
        cases hlive
      · exact .inr hrest
  | unlocked hfan =>
    refine h.congr ?_ rfl (fun id sub hsub hsublive => ⟨sub, hsub, hsublive⟩)
    simp [listed, hfan]
  | received hup =>
    exact h.congr rfl (List.length_modify ..) (fun j sub hsub hsublive => live_setShared hsub hsublive)
  | taken hup =>
    exact h.congr rfl (List.length_modify ..) (fun j sub hsub hsublive => live_setShared hsub hsublive)
  | @dropped id shared hup =>
    refine h.congr rfl (List.length_modify ..) ?_
    intro j sub hsub hsublive
    by_cases hj : id = j
    · subst hj
      rw [List.getElem?_modify_eq] at hsub
      obtain ⟨sub₀, -, rfl⟩ := Option.map_eq_some_iff.mp hsub
      cases hsublive
    · rw [List.getElem?_modify_ne _ _ hj] at hsub
      exact ⟨sub, hsub, hsublive⟩
  | counted hfree =>
    simp only [listed, hfree] at hnodup hbounded hlive
    refine ⟨?_, ?_, ?_⟩
    · simp only [listed, hfree]
      exact hnodup.filter _
    · simp only [listed, hfree]
      exact fun id hid => hbounded id (List.mem_of_mem_filter hid)
    · simp only [listed, hfree]
      intro id sub hsub hsublive
      exact List.mem_filter.mpr ⟨hlive id sub hsub hsublive, upgrade_isSome.mpr ⟨sub, hsub, hsublive⟩⟩

open BusEvent

/-- The part of the log that concerns the subscription `id`. -/
def silent (id : ℕ) (l : List BusEvent) : Prop :=
  offeredTo id l = [] ∧ receivedBy id l = [] ∧ reportedTo id l = 0 ∧
    ∀ shared, replay id shared l = shared

theorem silent_nil (id : ℕ) : silent id [] := ⟨rfl, rfl, rfl, fun _ => rfl⟩

/-- What a step does to the subscription `id`. -/
inductive SteppedAt (s : SharedCanBus) (id : ℕ) (sub sub' : Subscription) : List BusEvent → Prop
  | none {l : List BusEvent} (hsilent : silent id l) (hsub : sub' = sub) : SteppedAt s id sub sub' l
  | dropped (hsub : sub' = { sub with live := false }) : SteppedAt s id sub sub' []
  | offered {frame : CanFrame} {rest kept : List ℕ}
      (hfan : s.fanout = some ⟨frame, id :: rest, kept⟩) (hlive : sub.live = true)
      (hsub : sub' = { sub with shared := sub.shared.offer frame }) :
      SteppedAt s id sub sub' [.offered id frame]
  | received {frame : CanFrame} (hhead : sub.shared.queue.items.head? = some frame)
      (hsub : sub' = { sub with shared := sub.shared.tryRecv.1 }) :
      SteppedAt s id sub sub' [.received id frame]
  | taken (hsub : sub' = { sub with shared := sub.shared.takeOverflowCount.1 }) :
      SteppedAt s id sub sub' [.reported id sub.shared.overflow]

theorem tryRecv_of_nil {shared : SubscriptionShared} (h : shared.queue.items = []) :
    shared.tryRecv.1 = shared := by
  have hpop : shared.queue.popFront = shared.queue := by
    rw [Deque.mk.injEq]
    simp [h, Deque.popFront]
  rw [SubscriptionShared.tryRecv, hpop]

theorem setShared_at {sub : Subscription} (hsub : s.pool[id]? = some sub) {j : ℕ}
    {shared : SubscriptionShared} (hup : s.upgrade j = some shared) (f : SubscriptionShared → SubscriptionShared) :
    ∃ sub', (s.setShared j (f shared)).pool[id]? = some sub' ∧
      ((j ≠ id ∧ sub' = sub) ∨
        (j = id ∧ sub.live = true ∧ sub.shared = shared ∧ sub' = { sub with shared := f sub.shared })) := by
  rw [setShared_pool]
  by_cases hj : j = id
  · obtain ⟨sub₀, hsub₀, hlive, rfl⟩ := upgrade_eq_some.mp hup
    rw [hj, hsub] at hsub₀
    cases hsub₀
    rw [if_pos hj, hsub]
    exact ⟨_, rfl, .inr ⟨hj, hlive, rfl, rfl⟩⟩
  · rw [if_neg hj]
    exact ⟨sub, hsub, .inl ⟨hj, rfl⟩⟩

theorem steppedAt_of_step {sub : Subscription} (hsub : s.pool[id]? = some sub)
    (hstep : s.step a = some s') :
    ∃ sub', s'.pool[id]? = some sub' ∧ SteppedAt s id sub sub' (s.events a) := by
  cases stepped_of_step hstep with
  | subscribed policy filter hpos hfree =>
    have hlt := (List.getElem?_eq_some_iff.mp hsub).1
    exact ⟨sub, (List.getElem?_append_left hlt).trans hsub, .none (silent_nil id) rfl⟩
  | locked frame hfree =>
    exact ⟨sub, hsub, .none ⟨rfl, rfl, rfl, fun _ => rfl⟩ rfl⟩
  | @offered frame j rest kept shared hfan hup =>
    obtain ⟨sub', hsub', hcase⟩ := setShared_at hsub hup (·.offer frame)
    have hevents : s.events .visit = [.offered j frame] := by
      simp [events, hfan, hup]
    rw [hevents]
    refine ⟨sub', hsub', ?_⟩
    rcases hcase with ⟨hj, hsame⟩ | ⟨rfl, hlive, -, hsame⟩
    · refine .none ⟨?_, rfl, rfl, ?_⟩ hsame
      · simp [offeredTo, hj]
      · intro shared
        simp [replay, hj]
    · exact .offered hfan hlive hsame
  | pruned hfan hup =>
    have hevents : s.events .visit = [] := by
      simp [events, hfan, hup]
    rw [hevents]
    exact ⟨sub, hsub, .none (silent_nil id) rfl⟩
  | unlocked hfan => exact ⟨sub, hsub, .none (silent_nil id) rfl⟩
  | @received j shared hup =>
    obtain ⟨sub', hsub', hcase⟩ := setShared_at hsub hup (·.tryRecv.1)
    refine ⟨sub', hsub', ?_⟩
    cases hhead : shared.queue.items.head? with
    | none =>
      have hevents : s.events (.tryRecv j) = [] := by
        simp [events, hup, SubscriptionShared.tryRecv, hhead]
      rw [hevents]
      refine .none (silent_nil id) ?_
      rcases hcase with ⟨-, hsame⟩ | ⟨-, -, rfl, hsame⟩
      · exact hsame
      · rw [hsame, tryRecv_of_nil (List.head?_eq_none_iff.mp hhead)]
    | some frame =>
      have hevents : s.events (.tryRecv j) = [.received j frame] := by
        simp [events, hup, SubscriptionShared.tryRecv, hhead]
      rw [hevents]
      rcases hcase with ⟨hj, hsame⟩ | ⟨rfl, -, rfl, hsame⟩
      · refine .none ⟨rfl, ?_, rfl, ?_⟩ hsame
        · simp [receivedBy, hj]
        · intro shared
          simp [replay, hj]
      · exact .received hhead hsame
  | @taken j shared hup =>
    obtain ⟨sub', hsub', hcase⟩ := setShared_at hsub hup (·.takeOverflowCount.1)
    have hevents : s.events (.takeOverflowCount j) = [.reported j shared.overflow] := by
      simp [events, hup, SubscriptionShared.takeOverflowCount]
    rw [hevents]
    refine ⟨sub', hsub', ?_⟩
    rcases hcase with ⟨hj, hsame⟩ | ⟨rfl, -, rfl, hsame⟩
    · refine .none ⟨rfl, rfl, ?_, ?_⟩ hsame
      · simp [reportedTo, hj]
      · intro shared
        simp [replay, hj]
    · exact .taken hsame
  | @dropped j shared hup =>
    by_cases hj : j = id
    · subst hj
      refine ⟨{ sub with live := false }, ?_, .dropped rfl⟩
      rw [List.getElem?_modify_eq, hsub]
      rfl
    · refine ⟨sub, ?_, .none (silent_nil id) rfl⟩
      rw [List.getElem?_modify_ne _ _ hj]
      exact hsub
  | counted hfree => exact ⟨sub, hsub, .none (silent_nil id) rfl⟩

/-- A published frame is on its way to a live subscription until it is offered to it. -/
theorem step_inFlight (h : s.Registered) (hstep : s.step a = some s') {sub : Subscription}
    (hsub : s.pool[id]? = some sub) (hlive : sub.live = true) :
    s.inFlight id ++ publishedFrames (s.events a) = offeredTo id (s.events a) ++ s'.inFlight id := by
  have hmem := h.live id sub hsub hlive
  have hnodup := h.nodup
  cases stepped_of_step hstep with
  | subscribed policy filter hpos hfree =>
    simp [inFlight, hfree, events, publishedFrames, offeredTo]
  | locked frame hfree =>
    simp only [listed, hfree] at hmem
    simp [inFlight, hfree, events, publishedFrames, offeredTo, hmem]
  | @offered frame j rest kept shared hfan hup =>
    simp only [listed, hfan] at hnodup
    have hnot : j ∉ rest := (List.nodup_cons.mp hnodup.of_append_right).1
    by_cases hj : j = id
    · subst hj
      simp [inFlight, hfan, events, publishedFrames, offeredTo, hup, hnot]
    · have hj' : ¬id = j := fun heq => hj heq.symm
      simp [inFlight, hfan, events, publishedFrames, offeredTo, hup, hj, hj']
  | @pruned frame j rest kept hfan hup =>
    have hj : ¬id = j := by
      rintro rfl
      rw [upgrade_eq_some.mpr ⟨sub, hsub, hlive, rfl⟩] at hup
      cases hup
    simp [inFlight, hfan, events, publishedFrames, offeredTo, hup, hj]
  | unlocked hfan => simp [inFlight, hfan, events, publishedFrames, offeredTo]
  | @received j shared hup =>
    cases hhead : shared.queue.items.head? <;>
      simp [inFlight, events, publishedFrames, offeredTo, hup, SubscriptionShared.tryRecv, hhead, setShared]
  | taken hup => simp [inFlight, events, publishedFrames, offeredTo, hup, setShared]
  | dropped hup => simp [inFlight, events, publishedFrames, offeredTo]
  | counted hfree => simp [inFlight, hfree, events, publishedFrames, offeredTo]

/-- The subscription `id` is as it was made, up to its queue and counter. It has seen
the frames published so far, except the one in flight while it is live. -/
structure Served (made : SubscriptionShared) (id : ℕ) (past : List BusEvent) (s : SharedCanBus)
    (sub : Subscription) : Prop where
  entry : s.pool[id]? = some sub
  capacity : sub.shared.capacity = made.capacity
  policy : sub.shared.policy = made.policy
  filter : sub.shared.filter = made.filter
  replayed : sub.shared = replay id made past
  seen : offeredTo id past <+: publishedFrames past
  complete : sub.live = true → publishedFrames past = offeredTo id past ++ s.inFlight id
  ledger : sub.shared.Ledger ((offeredTo id past).filter made.accepts) (receivedBy id past)

theorem accepts_congr {s t : SubscriptionShared} (h : s.filter = t.filter) : s.accepts = t.accepts := by
  funext frame
  rw [SubscriptionShared.accepts, SubscriptionShared.accepts, h]

theorem offer_made (shared : SubscriptionShared) (frame : CanFrame) :
    (shared.offer frame).capacity = shared.capacity ∧ (shared.offer frame).policy = shared.policy ∧
      (shared.offer frame).filter = shared.filter := by
  rw [SubscriptionShared.offer]
  split_ifs
  · exact ⟨shared.push_capacity frame, shared.push_policy frame, shared.push_filter frame⟩
  · exact ⟨rfl, rfl, rfl⟩

section SteppedAt

variable {sub sub' : Subscription} {l : List BusEvent}

theorem SteppedAt.made (h : SteppedAt s id sub sub' l) :
    sub'.shared.capacity = sub.shared.capacity ∧ sub'.shared.policy = sub.shared.policy ∧
      sub'.shared.filter = sub.shared.filter := by
  cases h with
  | none _ hsub => exact ⟨by rw [hsub], by rw [hsub], by rw [hsub]⟩
  | dropped hsub => exact ⟨by rw [hsub], by rw [hsub], by rw [hsub]⟩
  | @offered frame _ _ _ _ hsub =>
    rw [hsub]
    exact offer_made sub.shared frame
  | received _ hsub =>
    rw [hsub]
    exact ⟨rfl, rfl, rfl⟩
  | taken hsub =>
    rw [hsub]
    exact ⟨rfl, rfl, rfl⟩

theorem SteppedAt.replayed (h : SteppedAt s id sub sub' l) :
    sub'.shared = replay id sub.shared l := by
  cases h with
  | none hsilent hsub => rw [hsub, hsilent.2.2.2]
  | dropped hsub =>
    rw [hsub]
    rfl
  | offered _ _ hsub => simp [hsub, replay]
  | received _ hsub => simp [hsub, replay]
  | taken hsub => simp [hsub, replay]

theorem SteppedAt.dead (h : SteppedAt s id sub sub' l) (hdead : sub.live = false) :
    offeredTo id l = [] ∧ sub'.live = false := by
  cases h with
  | none hsilent hsub => exact ⟨hsilent.1, by rw [hsub, hdead]⟩
  | dropped hsub => exact ⟨rfl, by rw [hsub]⟩
  | offered _ hlive _ =>
    rw [hdead] at hlive
    cases hlive
  | received _ hsub => exact ⟨rfl, by rw [hsub]; exact hdead⟩
  | taken hsub => exact ⟨rfl, by rw [hsub]; exact hdead⟩

theorem SteppedAt.ledger (h : SteppedAt s id sub sub' l) {accepted received : List CanFrame}
    (hledger : sub.shared.Ledger accepted received) :
    sub'.shared.Ledger (accepted ++ (offeredTo id l).filter sub.shared.accepts)
      (received ++ receivedBy id l) := by
  cases h with
  | none hsilent hsub =>
    rw [hsub, hsilent.1, hsilent.2.1, List.filter_nil, List.append_nil, List.append_nil]
    exact hledger
  | dropped hsub => simpa [hsub, offeredTo, receivedBy] using hledger
  | @offered frame _ _ _ _ hsub =>
    cases hacc : sub.shared.accepts frame with
    | true =>
      simpa [hsub, offeredTo, receivedBy, SubscriptionShared.offer, hacc] using hledger.push frame
    | false => simpa [hsub, offeredTo, receivedBy, SubscriptionShared.offer, hacc] using hledger
  | received hhead hsub =>
    simpa [hsub, offeredTo, receivedBy] using hledger.tryRecv hhead
  | taken hsub =>
    have htaken : sub.shared.takeOverflowCount.1.Ledger accepted received :=
      ⟨hledger.fifo, hledger.recent⟩
    simpa [hsub, offeredTo, receivedBy] using htaken

theorem SteppedAt.balanced (h : SteppedAt s id sub sub' l) {accepted received : List CanFrame}
    {reported : ℕ} (hbalanced : sub.shared.Balanced accepted received reported)
    (hlimit : offeredTo id l ≠ [] → sub.shared.atLimit = false) :
    sub'.shared.Balanced (accepted ++ (offeredTo id l).filter sub.shared.accepts)
      (received ++ receivedBy id l) (reported + reportedTo id l) := by
  cases h with
  | none hsilent hsub =>
    rw [hsub, hsilent.1, hsilent.2.1, hsilent.2.2.1, List.filter_nil, List.append_nil,
      List.append_nil]
    exact hbalanced
  | dropped hsub => simpa [hsub, offeredTo, receivedBy, reportedTo] using hbalanced
  | @offered frame _ _ _ _ hsub =>
    have hroom := hlimit (by simp [offeredTo])
    cases hacc : sub.shared.accepts frame with
    | true =>
      simpa [hsub, offeredTo, receivedBy, reportedTo, SubscriptionShared.offer, hacc] using
        hbalanced.push hroom frame
    | false =>
      simpa [hsub, offeredTo, receivedBy, reportedTo, SubscriptionShared.offer, hacc] using hbalanced
  | received hhead hsub =>
    simpa [hsub, offeredTo, receivedBy, reportedTo] using hbalanced.tryRecv hhead
  | taken hsub =>
    simpa [hsub, offeredTo, receivedBy, reportedTo] using hbalanced.takeOverflowCount

end SteppedAt

variable {made : SubscriptionShared} {past : List BusEvent} {sub : Subscription}

/-- The frames seen stay an initial part of the published ones. -/
theorem Served.seen_step (h : Served made id past s sub) (hreg : s.Registered)
    (hstep : s.step a = some s') {sub' : Subscription}
    (hat : SteppedAt s id sub sub' (s.events a)) :
    offeredTo id (past ++ s.events a) <+: publishedFrames (past ++ s.events a) ∧
      (sub'.live = true → publishedFrames (past ++ s.events a) =
        offeredTo id (past ++ s.events a) ++ s'.inFlight id) := by
  rw [offeredTo_append, publishedFrames_append]
  cases hlive : sub.live with
  | true =>
    have hall : publishedFrames past ++ publishedFrames (s.events a) =
        offeredTo id past ++ offeredTo id (s.events a) ++ s'.inFlight id := by
      have hflight := step_inFlight hreg hstep h.entry hlive
      rw [h.complete hlive, List.append_assoc, hflight, List.append_assoc]
    rw [hall]
    exact ⟨List.prefix_append _ _, fun _ => rfl⟩
  | false =>
    obtain ⟨hnone, hdead⟩ := hat.dead hlive
    rw [hnone, hdead, List.append_nil]
    exact ⟨h.seen.trans (List.prefix_append _ _), fun hl => by cases hl⟩

theorem Served.step (h : Served made id past s sub) (hreg : s.Registered)
    (hstep : s.step a = some s') :
    ∃ sub', Served made id (past ++ s.events a) s' sub' := by
  obtain ⟨sub', hsub', hat⟩ := steppedAt_of_step h.entry hstep
  obtain ⟨hseen, hcomplete⟩ := h.seen_step hreg hstep hat
  obtain ⟨hcapacity, hpolicy, hfilter⟩ := hat.made
  have haccepts := accepts_congr h.filter
  refine ⟨sub', hsub', ?_, ?_, ?_, ?_, hseen, hcomplete, ?_⟩
  · exact hcapacity.trans h.capacity
  · exact hpolicy.trans h.policy
  · exact hfilter.trans h.filter
  · rw [replay_append, ← h.replayed]
    exact hat.replayed
  · rw [offeredTo_append, receivedBy_append, List.filter_append, ← haccepts]
    have hledger := h.ledger
    rw [← haccepts] at hledger
    exact hat.ledger hledger

theorem visit_of_room (hsub : s.pool[id]? = some sub) {frame : CanFrame} {rest kept : List ℕ}
    (hfan : s.fanout = some ⟨frame, id :: rest, kept⟩) (hlive : sub.live = true)
    (hacc : sub.shared.accepts frame = true)
    (hroom : sub.shared.queue.items.length < sub.shared.capacity) (hstep : s.step .visit = some s') :
    ∃ sub', s'.pool[id]? = some sub' ∧
      sub'.shared.queue.items = sub.shared.queue.items ++ [frame] := by
  have hup : s.upgrade id = some sub.shared := upgrade_eq_some.mpr ⟨sub, hsub, hlive, rfl⟩
  cases stepped_of_step hstep with
  | offered hfan' hup' =>
    rw [hfan] at hfan'
    cases hfan'
    rw [hup] at hup'
    cases hup'
    obtain ⟨sub', hsub', hcase⟩ := setShared_at hsub hup (·.offer frame)
    refine ⟨sub', hsub', ?_⟩
    rcases hcase with ⟨hne, -⟩ | ⟨-, -, -, hsame⟩
    · exact (hne rfl).elim
    · have hoffer : sub.shared.offer frame = sub.shared.push frame := if_pos hacc
      rw [hsame, hoffer]
      rcases sub.shared.push_cases frame with ⟨-, hitems, -⟩ | ⟨hfull, -⟩ | ⟨hfull, -⟩
      · exact hitems
      · omega
      · omega
  | pruned hfan' hup' =>
    rw [hfan] at hfan'
    cases hfan'
    rw [hup] at hup'
    cases hup'

/-! ## Runs -/

/-- The bus in order, and the subscription `id` on it served so far. -/
def ServedBy (made : SubscriptionShared) (id : ℕ) (past : List BusEvent) (s : SharedCanBus) : Prop :=
  s.Registered ∧ ∃ sub, Served made id past s sub

theorem ServedBy.step (h : ServedBy made id past s) (hstep : s.step a = some s') :
    ServedBy made id (past ++ s.events a) s' := by
  obtain ⟨hreg, sub, hserved⟩ := h
  exact ⟨registered_step hreg hstep, hserved.step hreg hstep⟩

/-- The overflow counter of `id` does not wrap in this step. -/
def countsAt (id : ℕ) (s : SharedCanBus) : BusAction → Bool
  | .visit =>
    match s.fanout with
    | some ⟨_, id' :: _, _⟩ => id' != id || (s.upgrade id).all (fun shared => !shared.atLimit)
    | _ => true
  | _ => true

/-- Every accepted frame is accounted for. -/
def Accounted (made : SubscriptionShared) (id : ℕ) (past : List BusEvent) (s : SharedCanBus) : Prop :=
  ∃ sub, s.pool[id]? = some sub ∧ sub.shared.filter = made.filter ∧
    sub.shared.Balanced ((offeredTo id past).filter made.accepts) (receivedBy id past)
      (reportedTo id past)

theorem Accounted.step (h : Accounted made id past s) (hcounts : countsAt id s a = true)
    (hstep : s.step a = some s') : Accounted made id (past ++ s.events a) s' := by
  obtain ⟨sub, hsub, hfilter, hbalanced⟩ := h
  obtain ⟨sub', hsub', hat⟩ := steppedAt_of_step hsub hstep
  have haccepts := accepts_congr hfilter
  have hlimit : offeredTo id (s.events a) ≠ [] → sub.shared.atLimit = false := by
    intro hoffered
    cases stepped_of_step hstep with
    | @offered frame j rest kept shared hfan hup =>
      have hj : j = id := by
        by_contra hne
        simp [events, hfan, hup, offeredTo, hne] at hoffered
      subst hj
      obtain ⟨sub₀, hsub₀, -, rfl⟩ := upgrade_eq_some.mp hup
      rw [hsub] at hsub₀
      cases hsub₀
      simpa [countsAt, hfan, hup] using hcounts
    | pruned hfan hup => simp [events, hfan, hup, offeredTo] at hoffered
    | @received j shared hup =>
      cases hhead : shared.queue.items.head? <;>
        simp [events, hup, SubscriptionShared.tryRecv, hhead, offeredTo] at hoffered
    | taken hup => simp [events, hup, offeredTo] at hoffered
    | subscribed | locked | unlocked | dropped | counted => simp [events, offeredTo] at hoffered
  refine ⟨sub', hsub', hat.made.2.2.trans hfilter, ?_⟩
  rw [offeredTo_append, receivedBy_append, reportedTo_append, List.filter_append, ← haccepts]
  rw [← haccepts] at hbalanced
  exact hat.balanced hbalanced hlimit

theorem registered_new : new.Registered :=
  ⟨List.nodup_nil, fun _ h => (List.not_mem_nil h).elim, fun _ _ h => by cases h⟩

theorem registered_run {l : List BusAction} (h : Runs.run step s l = some s') (hreg : s.Registered) :
    s'.Registered := by
  induction l generalizing s with
  | nil =>
    cases h
    exact hreg
  | cons a l ih =>
    obtain ⟨s₁, hstep, hrest⟩ := Runs.run_cons.mp h
    exact ih hrest (registered_step hreg hstep)

/-- What a subscription has right after it is made. -/
theorem served_subscribe {capacity : ℕ} {policy : OverflowPolicy}
    {filter : Option (CanFrame → Bool)}
    (hstep : s.step (.subscribeWith capacity policy filter) = some s') :
    ∃ made : SubscriptionShared, made.capacity = capacity ∧ made.policy = policy ∧
      made.filter = filter ∧ Served made s.pool.length [] s' ⟨made, true⟩ ∧
      Accounted made s.pool.length [] s' := by
  cases stepped_of_step hstep with
  | subscribed policy filter hpos hfree =>
    have hentry : (s.pool ++ [⟨SubscriptionShared.new capacity policy filter hpos, true⟩])[
        s.pool.length]? = some ⟨SubscriptionShared.new capacity policy filter hpos, true⟩ := by
      simp
    refine ⟨.new capacity policy filter hpos, rfl, rfl, rfl, ⟨hentry, rfl, rfl, rfl, rfl,
      List.prefix_rfl, fun _ => ?_, SubscriptionShared.ledger_new ..⟩, _, hentry, rfl, rfl⟩
    simp [publishedFrames, offeredTo, inFlight, hfree]

/-- The bus shows every subscriber the same history. The frames published since a
subscription was made reach it in one order; what it receives is a subsequence of
those it accepts. Every accepted frame is received, queued or counted, as long as the
counter does not wrap. Under `dropOldest` the queue holds the most recent accepted
frames later than the last one received; under `dropNewest` a frame is refused only
by a full queue. A subscription depends on its own events only. -/
theorem bus_shows_one_history {before after : List BusAction} {capacity : ℕ}
    {policy : OverflowPolicy} {filter : Option (CanFrame → Bool)} {s₀ s₁ s : SharedCanBus}
    (hbefore : Runs.run step new before = some s₀)
    (hsubscribe : s₀.step (.subscribeWith capacity policy filter) = some s₁)
    (hafter : Runs.run step s₁ after = some s) :
    let id := s₀.pool.length
    let order := publishedFrames (Runs.log step events new
      (before ++ .subscribeWith capacity policy filter :: after))
    let since := order.drop (publishedFrames (Runs.log step events new before)).length
    let log := Runs.log step events s₁ after
    let accepts := fun frame => filter.all (fun f => f frame)
    let accepted := (offeredTo id log).filter accepts
    let received := receivedBy id log
    ∃ (made : SubscriptionShared) (sub : Subscription),
      s₁.pool[id]? = some ⟨made, true⟩ ∧ s.pool[id]? = some sub ∧
      (sub.live = true → since = offeredTo id log ++ s.inFlight id) ∧
      (received.Sublist (since.filter accepts) ∧
        (received ++ sub.shared.queue.items).Sublist accepted) ∧
      (Runs.along step (countsAt id) s₁ after = true →
        accepted.length = received.length + sub.shared.queue.items.length +
          (reportedTo id log + sub.shared.overflow.toNat)) ∧
      (policy = .dropOldest → ∃ handled rest, accepted = handled ++ rest ∧
        received.Sublist handled ∧ received.getLast? = handled.getLast? ∧
        sub.shared.queue.items = rest.drop (rest.length - capacity)) ∧
      (policy = .dropNewest → ∀ (frame : CanFrame) (rest kept : List ℕ) (s' : SharedCanBus),
        s.fanout = some ⟨frame, id :: rest, kept⟩ → sub.live = true → accepts frame = true →
        sub.shared.queue.items.length < capacity → s.step .visit = some s' →
        ∃ sub', s'.pool[id]? = some sub' ∧
          sub'.shared.queue.items = sub.shared.queue.items ++ [frame]) ∧
      sub.shared = replay id made log ∧
      ∀ (j : ℕ) (s' : SharedCanBus), j ≠ id → s.step (.drop j) = some s' →
        s'.pool[id]? = s.pool[id]? ∧ s'.inFlight id = s.inFlight id := by
  intro id order since log accepts accepted received
  obtain ⟨made, hcapacity, hpolicy, hfilter, hstart, haccount⟩ := served_subscribe hsubscribe
  have haccepts : made.accepts = accepts := by
    funext frame
    simp only [SubscriptionShared.accepts, hfilter, accepts]
    cases filter <;> rfl
  -- the frames published since the subscription are those of the run after it
  have hsince : since = publishedFrames log := by
    have hlog : Runs.log step events new (before ++ .subscribeWith capacity policy filter :: after) =
        Runs.log step events new before ++
          Runs.log step events s₀ (.subscribeWith capacity policy filter :: after) :=
      Runs.log_append hbefore
    have hcons : Runs.log step events s₀ (.subscribeWith capacity policy filter :: after) = log := by
      simp only [Runs.log, hsubscribe]
      rfl
    simp only [since, order]
    rw [hlog, publishedFrames_append, List.drop_left, hcons]
  have hreg := registered_step (registered_run hbefore registered_new) hsubscribe
  obtain ⟨-, sub, hserved⟩ : ServedBy made id ([] ++ log) s :=
    Runs.run_inv (fun _ _ _ _ hinv _ hstep => hinv.step hstep) ⟨hreg, _, hstart⟩
      (Runs.along_true s₁ after) hafter
  have hledger := hserved.ledger
  rw [haccepts] at hledger
  refine ⟨made, sub, hstart.entry, hserved.entry, ?_, ⟨?_, hledger.fifo⟩, ?_, ?_, ?_,
    hserved.replayed, ?_⟩
  · intro hlive
    rw [hsince]
    exact hserved.complete hlive
  · rw [hsince]
    have hreceived := (List.sublist_append_left _ _).trans hledger.fifo
    exact hreceived.trans (hserved.seen.sublist.filter _)
  · intro hcounts
    obtain ⟨sub', hsub', -, hbalanced⟩ : Accounted made id ([] ++ log) s :=
      Runs.run_inv (fun _ _ _ _ hinv hcounts hstep => hinv.step hcounts hstep) haccount hcounts
        hafter
    rw [List.nil_append, haccepts] at hbalanced
    have hsame := hserved.entry.symm.trans hsub'
    cases hsame
    exact hbalanced
  · intro holdest
    rw [← hcapacity, ← hserved.capacity]
    exact hledger.recent (hserved.policy.trans (hpolicy.trans holdest))
  · intro _ frame rest kept s' hfan hlive hacc hroom hvisit
    rw [← haccepts, ← accepts_congr hserved.filter] at hacc
    rw [← hcapacity, ← hserved.capacity] at hroom
    exact visit_of_room hserved.entry hfan hlive hacc hroom hvisit
  · intro j s' hj hdrop
    cases stepped_of_step hdrop with
    | dropped hup => exact ⟨List.getElem?_modify_ne _ _ hj, rfl⟩

/-- Publishing a frame to the only subscription. -/
def publishOne (frame : CanFrame) : List BusAction := [.publish frame, .visit, .unlock]

theorem ofNat_le_id_max (id : Fin 0x800) : UInt16.ofNat id ≤ 0x7FF := by
  rw [UInt16.le_iff_toNat_le, UInt16.toNat_ofNat', Nat.mod_eq_of_lt (by omega)]
  exact Nat.le_of_lt_succ id.isLt

def sampleFrame (id : Fin 0x800) : CanFrame := ⟨UInt16.ofNat id, [0xAA], ofNat_le_id_max id, by simp⟩

/-- Two frames for a queue of one; the second drives out the first. -/
theorem bus_shows_one_history_evicting :
    let after := publishOne (sampleFrame 0x181) ++ publishOne (sampleFrame 0x182) ++ [.tryRecv 0]
    ∃ s₁ s : SharedCanBus, new.step (.subscribeWith 1 .dropOldest none) = some s₁ ∧
      Runs.run step s₁ after = some s ∧
      (receivedBy 0 (Runs.log step events s₁ after)).Sublist
        [sampleFrame 0x181, sampleFrame 0x182] := by
  intro after
  refine ⟨_, _, rfl, rfl, ?_⟩
  obtain ⟨_, _, _, _, _, ⟨hreceived, _⟩, _⟩ :=
    @bus_shows_one_history [] after 1 .dropOldest none new _ _ rfl rfl rfl
  exact hreceived

/-! ### The counter wraps -/

/-- A full queue of one that refuses further frames. -/
def fullBus (overflow : UInt64) : SharedCanBus :=
  ⟨[⟨⟨1, .dropNewest, none, ⟨[sampleFrame 0x181], by simp⟩, overflow, by decide⟩, true⟩], [0], none⟩

/-- One frame more than `n` for a queue of one. -/
def flood (n : ℕ) : List BusAction :=
  publishOne (sampleFrame 0x181) ++ (List.replicate n (publishOne (sampleFrame 0x181))).flatten

theorem flood_succ (n : ℕ) : flood (n + 1) = flood n ++ publishOne (sampleFrame 0x181) := by
  simp [flood, List.replicate_succ']

theorem run_flood {s₁ : SharedCanBus}
    (h : new.step (.subscribeWith 1 .dropNewest none) = some s₁) (n : ℕ) :
    Runs.run step s₁ (flood n) = some (fullBus (UInt64.ofNat n)) ∧
      (offeredTo 0 (Runs.log step events s₁ (flood n))).length = n + 1 ∧
      receivedBy 0 (Runs.log step events s₁ (flood n)) = [] ∧
      reportedTo 0 (Runs.log step events s₁ (flood n)) = 0 := by
  induction n with
  | zero =>
    cases h
    exact ⟨rfl, rfl, rfl, rfl⟩
  | succ n ih =>
    obtain ⟨hrun, hoffered, hreceived, hreported⟩ := ih
    have hnext : Runs.run step (fullBus (UInt64.ofNat n)) (publishOne (sampleFrame 0x181)) =
        some (fullBus (UInt64.ofNat (n + 1))) := by
      rw [UInt64.ofNat_add]
      rfl
    rw [flood_succ, Runs.log_append hrun, offeredTo_append, receivedBy_append, reportedTo_append,
      List.length_append, hoffered, hreceived, hreported]
    exact ⟨Runs.run_append_eq_some.mpr ⟨_, hrun, hnext⟩, rfl, rfl, rfl⟩

/-- After 2^64 refused frames the 64-bit counter is back at zero. -/
theorem bus_counter_wraps :
    ∃ s₁ s : SharedCanBus, new.step (.subscribeWith 1 .dropNewest none) = some s₁ ∧
      Runs.run step s₁ (flood (2 ^ 64)) = some s ∧
      ∃ sub, s.pool[0]? = some sub ∧
        ¬((offeredTo 0 (Runs.log step events s₁ (flood (2 ^ 64)))).length =
          (receivedBy 0 (Runs.log step events s₁ (flood (2 ^ 64)))).length +
            sub.shared.queue.items.length +
            (reportedTo 0 (Runs.log step events s₁ (flood (2 ^ 64))) + sub.shared.overflow.toNat)) := by
  refine ⟨_, _, rfl, (run_flood rfl (2 ^ 64)).1, _, rfl, ?_⟩
  obtain ⟨-, hoffered, hreceived, hreported⟩ := run_flood rfl (2 ^ 64)
  rw [hoffered, hreceived, hreported]
  decide

end SharedCanBus

end Canopen
