import Canopen.Slcan.Codec

/-!
# Adapter replies

An adapter answers every transmitted command in the stream that also carries the received
frames (`slcan/serial.rs`). An acknowledgement ends with a carriage return, the error reply is a
single BEL without one.
-/

namespace Canopen.Slcan

open SlcanTransport

def bel : UInt8 := 7

/-- What an adapter sends. -/
inductive Message
  | frame (line : SlcanLine)
  | ack
  | transmitted (extended : Bool)
  | error

namespace Message

def bytes : Message → List UInt8
  | frame line => line.text ++ [cr]
  | ack => [cr]
  | transmitted extended => [if extended then 0x5A else 0x7A, cr]
  | error => [bel]

def frame? : Message → Option CanFrame
  | frame line => some line.frame
  | _ => none

def isError : Message → Bool
  | error => true
  | _ => false

end Message

def serialStream (messages : List Message) : List UInt8 := messages.flatMap (·.bytes)

def sentFrames (messages : List Message) : List CanFrame := messages.filterMap (·.frame?)

/-- However the port delivers the messages, the frames received are those sent. -/
def ReceivesAll (messages : List Message) : Prop :=
  ∀ schedule k, (serialStream messages).length ≤ deliveries schedule →
    schedule.length + (serialStream messages).count cr < k →
      resultFrames (receives k (SlcanTransport.new ⟨serialStream messages, schedule⟩)).1 =
        sentFrames messages

/-- No error reply is directly followed by a frame. -/
def ErrorsDelimited (messages : List Message) : Prop :=
  messages.IsChain fun m next => m.isError = true → next.frame? = none

/-! ## What is heard -/

/-- The frames that are heard when `garbled` tells whether a BEL is pending. -/
def heardFrames (garbled : Bool) : List Message → List CanFrame
  | [] => []
  | .frame line :: rest => (if garbled then [] else [line.frame]) ++ heardFrames false rest
  | .error :: rest => heardFrames true rest
  | _ :: rest => heardFrames false rest

theorem head_of_parse {line : List UInt8} {frame : CanFrame} (h : parseSlcanFrame line = some frame) :
    line.head? = some 0x74 := by
  obtain ⟨l, rfl | rfl, -⟩ := parse_eq_some_iff.mp h
  · rfl
  · rfl

theorem parse_eq_none {line : List UInt8} (h : line.head? ≠ some 0x74) : parseSlcanFrame line = none := by
  cases hparse : parseSlcanFrame line with
  | none => rfl
  | some frame => exact absurd (head_of_parse hparse) h

theorem not_mem_bels (n : ℕ) : cr ∉ List.replicate n bel := by
  intro hmem
  exact absurd (List.eq_of_mem_replicate hmem) (by decide)

theorem parse_garbled (n : ℕ) (line : List UInt8) :
    parseSlcanFrame (List.replicate (n + 1) bel ++ line) = none := by
  apply parse_eq_none
  rw [List.replicate_succ, List.cons_append, List.head?_cons, ne_eq, Option.some.injEq]
  decide

theorem parse_reply {n : ℕ} {mark : List UInt8} (h : mark.head? ≠ some 0x74) :
    parseSlcanFrame (List.replicate n bel ++ mark) = none := by
  cases n with
  | zero => exact parse_eq_none h
  | succ n => exact parse_garbled n mark

theorem parse_frame (n : ℕ) (line : SlcanLine) :
    (parseSlcanFrame (List.replicate n bel ++ line.text)).toList =
      if 0 < n then [] else [line.frame] := by
  cases n with
  | zero =>
    rw [if_neg (Nat.lt_irrefl 0), List.replicate_zero, List.nil_append,
      parse_eq_some_iff.mpr ⟨line, .inl rfl, rfl⟩]
    rfl
  | succ n =>
    rw [if_pos n.succ_pos, parse_garbled]
    rfl

/-- The lines of a stream, behind BELs that are not terminated yet. -/
theorem slcanFrames_serialStream (messages : List Message) (n : ℕ) :
    slcanFrames (List.replicate n bel ++ serialStream messages) = heardFrames (decide (0 < n)) messages := by
  have hline (mark : List UInt8) (rest : List Message) (n : ℕ) (hmark : cr ∉ mark) :
      slcanFrames (List.replicate n bel ++ (mark ++ [cr] ++ serialStream rest)) =
        (parseSlcanFrame (List.replicate n bel ++ mark)).toList ++ slcanFrames (serialStream rest) := by
    rw [List.append_assoc mark, ← List.append_assoc, List.singleton_append,
      slcanFrames_line (by rw [List.mem_append, not_or]; exact ⟨not_mem_bels n, hmark⟩)]
  induction messages generalizing n with
  | nil =>
    rw [serialStream, List.flatMap_nil, List.append_nil]
    exact slcanFrames_of_not_mem (not_mem_bels n)
  | cons m rest ih =>
    have hrest : slcanFrames (serialStream rest) = heardFrames false rest := ih 0
    rw [serialStream, List.flatMap_cons, ← serialStream]
    cases m with
    | frame line =>
      rw [Message.bytes, hline _ _ _ line.not_mem_text, parse_frame, hrest, heardFrames]
      simp only [decide_eq_true_eq]
    | ack =>
      have hack := hline [] rest n (by simp)
      rw [parse_reply (by decide), Option.toList_none, List.nil_append, hrest] at hack
      exact hack
    | transmitted extended =>
      have hmark : cr ∉ [if extended then 0x5A else 0x7A] := by
        cases extended <;> decide
      have hack := hline _ rest n hmark
      rw [parse_reply (by cases extended <;> decide), Option.toList_none, List.nil_append, hrest] at hack
      exact hack
    | error =>
      have hmore : List.replicate n bel ++ ([bel] ++ serialStream rest) =
          List.replicate (n + 1) bel ++ serialStream rest := by
        rw [List.replicate_succ', List.append_assoc]
      rw [Message.bytes, hmore, ih (n + 1), heardFrames, decide_eq_true n.succ_pos]

/-- Nothing is heard that was not sent, and the order stays. -/
theorem heardFrames_sublist (garbled : Bool) (messages : List Message) :
    (heardFrames garbled messages).Sublist (sentFrames messages) := by
  induction messages generalizing garbled with
  | nil => exact List.Sublist.refl []
  | cons m rest ih =>
    cases m with
    | frame line =>
      have hsent : sentFrames (.frame line :: rest) = line.frame :: sentFrames rest := rfl
      rw [hsent, heardFrames]
      cases garbled with
      | true => exact (ih false).cons _
      | false => exact (ih false).cons_cons _
    | ack => exact ih false
    | transmitted extended => exact ih false
    | error => exact ih true

/-- A frame is lost exactly when it stands directly behind an error reply. -/
theorem heardFrames_eq_iff (m : Message) (messages : List Message) :
    heardFrames m.isError messages = sentFrames messages ↔ ErrorsDelimited (m :: messages) := by
  induction messages generalizing m with
  | nil => exact iff_of_true rfl (List.isChain_singleton m)
  | cons next rest ih =>
    rw [ErrorsDelimited, List.isChain_cons_cons, ← ErrorsDelimited, ← ih next]
    cases next with
    | frame line =>
      have hsent : sentFrames (.frame line :: rest) = line.frame :: sentFrames rest := rfl
      rw [hsent, heardFrames]
      cases hm : m.isError with
      | true =>
        refine iff_of_false (fun h => ?_) (fun h => ?_)
        · have hle := (heardFrames_sublist false rest).length_le
          rw [if_pos rfl, List.nil_append] at h
          rw [h, List.length_cons] at hle
          omega
        · exact absurd (h.1 rfl) (Option.some_ne_none _)
      | false =>
        rw [if_neg (by decide), List.singleton_append, List.cons_inj_right]
        exact ⟨fun h => ⟨fun hfalse => Bool.noConfusion hfalse, h⟩, fun h => h.2⟩
    | ack => exact ⟨fun h => ⟨fun _ => rfl, h⟩, fun h => h.2⟩
    | transmitted extended => exact ⟨fun h => ⟨fun _ => rfl, h⟩, fun h => h.2⟩
    | error => exact ⟨fun h => ⟨fun _ => rfl, h⟩, fun h => h.2⟩

/-! ## The receiver -/

/-- What the receiver returns does not depend on how the port delivers the messages. -/
theorem receivesAll_iff_heard (messages : List Message) :
    ReceivesAll messages ↔ heardFrames false messages = sentFrames messages := by
  have hstream : slcanFrames (serialStream messages) = heardFrames false messages :=
    slcanFrames_serialStream messages 0
  rw [← hstream]
  constructor
  · intro h
    have hdelivered : (serialStream messages).length ≤
        deliveries (List.replicate (serialStream messages).length (some 1)) := by
      simp [deliveries, List.countP_replicate]
    rw [← h _ _ hdelivered (Nat.lt_succ_self _)]
    exact (resultFrames_of_delivered hdelivered (Nat.lt_succ_self _)).symm
  · intro h schedule k hdelivered hk
    rw [resultFrames_of_delivered hdelivered hk, h]

/-- Every frame is received, once and in order, exactly when no error reply stands directly before
a frame. -/
theorem replies_swallow_no_frame (messages : List Message) :
    ReceivesAll messages ↔ ErrorsDelimited messages := by
  have hchain : ErrorsDelimited (.ack :: messages) ↔ ErrorsDelimited messages := by
    rw [ErrorsDelimited, List.isChain_cons, ← ErrorsDelimited]
    exact and_iff_right fun _ _ h => Bool.noConfusion h
  rw [receivesAll_iff_heard, ← hchain]
  exact heardFrames_eq_iff .ack messages

def sampleLine : SlcanLine := .ofFrame sampleFrame [] (by simp) (.inl rfl)

/-- A frame behind the error reply to a command is not received. -/
theorem replies_swallow_frame :
    serialStream [.error, .frame sampleLine] = [7, 0x74, 0x32, 0x30, 0x31, 0x31, 0x32, 0x41, 13] ∧
      ¬ReceivesAll [.error, .frame sampleLine] := by
  refine ⟨by decide, fun h => ?_⟩
  exact absurd ((receivesAll_iff_heard _).mp h) (List.cons_ne_nil _ _).symm

end Canopen.Slcan
