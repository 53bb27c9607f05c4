import Canopen.Derive.PdoClient

/-!
# Dispatch of received PDOs

The generated `decode` of a remote client (`pdo_client_codegen.rs`) looks for the transmit PDO
that a frame belongs to. Two PDOs with the same identifier are refused when the client is
generated, if they have it on every node, and when a frame is decoded, if they have it on this
one.
-/

namespace Canopen.Derive

open Pdo

/-! ## The generated function -/

def nodeIdDependentCollision (p other : PdoDef) : Bool :=
  match p.effectiveCobIdSpec, other.effectiveCobIdSpec with
  | some (.absolute id), some (.nodeRelative base) | some (.nodeRelative base), some (.absolute id) =>
    base ≤ id && 1 ≤ id - base && id - base ≤ 127
  | _, _ => false

/-- Every element with every later one. -/
def laterPairs {α : Type} : List α → List (α × α)
  | [] => []
  | a :: l => l.map (a, ·) ++ laterPairs l

def dispatchTpdos (codecs : List (PdoDef × PdoCodec)) : List (PdoDef × PdoCodec) :=
  codecs.filter fun codec => !codec.1.isDisabled && codec.1.direction == .tpdo

def ambiguityCheck (frame : CanFrame) (pair : (PdoDef × PdoCodec) × PdoDef × PdoCodec) : Bool :=
  nodeIdDependentCollision pair.1.1 pair.2.1 && frame.id == pair.1.2.cobId && frame.id == pair.2.2.cobId

/-- The first PDO with the identifier of the frame decodes it, to its number and payload. -/
def decodeArms (frame : CanFrame) :
    List (PdoDef × PdoCodec) → Except PdoDecodeError (Option (UInt16 × Payload))
  | [] => .ok none
  | (p, c) :: rest =>
    if frame.id = c.cobId then (c.decodeTpdo frame).map fun payload => some (p.number, payload)
    else decodeArms frame rest

def decode (codecs : List (PdoDef × PdoCodec)) (frame : CanFrame) :
    Except PdoDecodeError (Option (UInt16 × Payload)) :=
  let tpdos := dispatchTpdos codecs
  if (laterPairs tpdos).any (ambiguityCheck frame) then .error (.ambiguousCobId frame.id)
  else decodeArms frame tpdos

/-! ## Pairs -/

/-- Two elements of a list satisfy a predicate exactly when one of the pairs does. -/
theorem two_le_countP_iff {α : Type} (q : α → Bool) (l : List α) :
    2 ≤ l.countP q ↔ ∃ pair ∈ laterPairs l, q pair.1 = true ∧ q pair.2 = true := by
  induction l with
  | nil => simp [laterPairs]
  | cons a l ih =>
    have hfirst : (∃ pair ∈ l.map (a, ·), q pair.1 = true ∧ q pair.2 = true) ↔ q a = true ∧ 0 < l.countP q := by
      rw [List.countP_pos_iff]
      constructor
      · rintro ⟨pair, hmem, ha, hb⟩
        obtain ⟨b, hb', rfl⟩ := List.mem_map.mp hmem
        exact ⟨ha, b, hb', hb⟩
      · rintro ⟨ha, b, hmem, hb⟩
        exact ⟨(a, b), List.mem_map_of_mem hmem, ha, hb⟩
    simp only [laterPairs, List.mem_append, or_and_right, exists_or]
    rw [hfirst, ← ih, List.countP_cons]
    by_cases ha : q a = true
    · rw [if_pos ha, and_iff_right ha]
      omega
    · rw [if_neg ha]
      simp [ha]

theorem ne_of_nodup_map {α β : Type} {f : α → β} {l : List α} (h : (l.map f).Nodup) {pair : α × α}
    (hpair : pair ∈ laterPairs l) : f pair.1 ≠ f pair.2 := by
  induction l with
  | nil => cases hpair
  | cons a l ih =>
    rw [List.map_cons, List.nodup_cons] at h
    rw [laterPairs, List.mem_append] at hpair
    rcases hpair with hpair | hpair
    · obtain ⟨b, hb, rfl⟩ := List.mem_map.mp hpair
      intro heq
      rw [heq] at h
      exact h.1 (List.mem_map_of_mem hb)
    · exact ih h.2 hpair

theorem mem_of_mem_laterPairs {α : Type} {l : List α} {pair : α × α} (h : pair ∈ laterPairs l) :
    pair.1 ∈ l ∧ pair.2 ∈ l := by
  induction l with
  | nil => cases h
  | cons a l ih =>
    rw [laterPairs, List.mem_append] at h
    rcases h with h | h
    · obtain ⟨b, hb, rfl⟩ := List.mem_map.mp h
      exact ⟨List.mem_cons_self, List.mem_cons_of_mem a hb⟩
    · exact ⟨List.mem_cons_of_mem a (ih h).1, List.mem_cons_of_mem a (ih h).2⟩

/-! ## Collisions -/

/-- A valid identifier is the declared number, or the base and the node id. -/
theorem cobIdExpr_ok {p : PdoDef} {node : NodeId} {cobId : UInt16} (h : p.cobIdExpr node = .ok cobId) :
    (∃ raw, p.effectiveCobIdSpec = some (.absolute raw) ∧ cobId.toNat = raw.toNat) ∨
      ∃ base, p.effectiveCobIdSpec = some (.nodeRelative base) ∧
        cobId.toNat = base.toNat + node.raw.toNat := by
  have hnode := CobId.toNat_raw node
  unfold PdoDef.cobIdExpr at h
  split at h
  · cases h
  · rename_i raw hspec
    split_ifs at h with hext hle
    cases h
    rw [UInt32.le_iff_toNat_le] at hle
    simp only [UInt32.reduceToNat] at hle
    refine .inl ⟨raw, hspec, ?_⟩
    rw [UInt32.toNat_toUInt16]
    omega
  · rename_i base hspec
    split_ifs at h with hext hle
    cases h
    have hlt := effectiveCobIdSpec_lt hspec
    rw [UInt32.le_iff_toNat_le, UInt32.toNat_add] at hle
    simp only [UInt32.reduceToNat] at hle
    refine .inr ⟨base, hspec, ?_⟩
    rw [UInt16.toNat_add, UInt32.toNat_toUInt16, UInt8.toNat_toUInt16]
    omega

theorem collision_of_toNat {id base : UInt32} {node : NodeId} (h : id.toNat = base.toNat + node.raw.toNat) :
    (base ≤ id && 1 ≤ id - base && id - base ≤ 127) = true := by
  have hnode := CobId.toNat_raw node
  have hle : base ≤ id := UInt32.le_iff_toNat_le.mpr (by omega)
  simp only [Bool.and_eq_true, decide_eq_true_eq, UInt32.le_iff_toNat_le (a := 1),
    UInt32.le_iff_toNat_le (b := 127), UInt32.toNat_sub_of_le _ _ hle, UInt32.reduceToNat]
  refine ⟨⟨hle, ?_⟩, ?_⟩ <;> omega

/-- PDOs that are told apart when the client is generated have the same identifier on a node only if
the run-time check is generated for them. -/
theorem nodeIdDependentCollision_of_eq {p other : PdoDef} {node : NodeId} {cobId : UInt16}
    (hne : p.effectiveCobIdSpec ≠ other.effectiveCobIdSpec) (hp : p.cobIdExpr node = .ok cobId)
    (hother : other.cobIdExpr node = .ok cobId) : nodeIdDependentCollision p other = true := by
  unfold nodeIdDependentCollision
  rcases cobIdExpr_ok hp with ⟨raw, hspec, hid⟩ | ⟨base, hspec, hid⟩ <;>
    rcases cobIdExpr_ok hother with ⟨raw', hspec', hid'⟩ | ⟨base', hspec', hid'⟩
  · refine absurd ?_ hne
    rw [hspec, hspec', UInt32.toNat_inj.mp (hid.symm.trans hid')]
  · rw [hspec, hspec']
    exact collision_of_toNat (hid.symm.trans hid')
  · rw [hspec, hspec']
    exact collision_of_toNat (hid'.symm.trans hid)
  · refine absurd ?_ hne
    have hbase : base = base' := UInt32.toNat_inj.mp (by omega)
    rw [hspec, hspec', hbase]

/-! ## Codecs -/

theorem generateCodecs_fst {d : OdDefinition} {node : NodeId} {ps : List PdoDef}
    {codecs : List (PdoDef × PdoCodec)} (h : generateCodecs d node ps = .ok codecs) :
    codecs.map (·.1) = ps := by
  induction ps generalizing codecs with
  | nil =>
    cases h
    rfl
  | cons p ps ih =>
    unfold generateCodecs at h
    split at h
    · cases h
    · cases hrest : generateCodecs d node ps with
      | error error =>
        rw [hrest] at h
        cases h
      | ok rest =>
        rw [hrest] at h
        cases h
        rw [List.map_cons, ih hrest]

def PdoDef.payloadBytes (p : PdoDef) : ℕ :=
  bytesForBits ((p.mappings.map PdoMapping.fromMappingValue).map (·.bitLength.toNat)).sum

/-- The mapped transmit PDOs, active at power-up, that have an identifier on a node. -/
def OdDefinition.resolvingTpdos (d : OdDefinition) (node : NodeId) (cobId : UInt16) : List PdoDef :=
  d.dispatchPdos.filter fun p => p.direction = .tpdo ∧ p.cobIdExpr node = .ok cobId

def addressed (codecs : List (PdoDef × PdoCodec)) (frame : CanFrame) : List (PdoDef × PdoCodec) :=
  (dispatchTpdos codecs).filter fun codec => frame.id == codec.2.cobId

section
variable {d : OdDefinition} {node : NodeId} {codecs : List (PdoDef × PdoCodec)}

theorem generateParts_ok (h : generateParts d node = .ok codecs) :
    (d.dispatchPdos.map (·.effectiveCobIdSpec)).Nodup ∧ generateCodecs d node d.mappedPdos = .ok codecs := by
  unfold generateParts at h
  split_ifs at h with hnodup
  exact ⟨hnodup, h⟩

/-- They are those of the PDOs that have its identifier on the node. -/
theorem addressed_fst (h : generateParts d node = .ok codecs) (frame : CanFrame) :
    (addressed codecs frame).map (·.1) = d.resolvingTpdos node frame.id := by
  have hgen := (generateParts_ok h).2
  have hid : ∀ codec ∈ codecs, (frame.id == codec.2.cobId) = decide (codec.1.cobIdExpr node = .ok frame.id) := by
    intro codec hmem
    have hcob : codec.1.cobIdExpr node = .ok codec.2.cobId := generateParts_cobId h hmem
    rw [hcob, Bool.eq_iff_iff, beq_iff_eq, decide_eq_true_eq, Except.ok.injEq, eq_comm]
  rw [OdDefinition.resolvingTpdos, OdDefinition.dispatchPdos, ← generateCodecs_fst hgen, List.filter_map,
    List.filter_map, addressed, dispatchTpdos, List.filter_filter, List.filter_filter]
  congr 1
  refine List.filter_congr fun codec hmem => ?_
  rw [hid codec hmem]
  simp only [Function.comp_apply, Bool.decide_and]
  cases hdir : codec.1.direction <;> cases codec.1.isDisabled <;> simp

theorem nodup_dispatchTpdos (h : generateParts d node = .ok codecs) :
    ((dispatchTpdos codecs).map fun codec => codec.1.effectiveCobIdSpec).Nodup := by
  obtain ⟨hnodup, hgen⟩ := generateParts_ok h
  rw [OdDefinition.dispatchPdos, ← generateCodecs_fst hgen, List.filter_map, List.map_map] at hnodup
  refine hnodup.sublist (List.Sublist.map _ ?_)
  refine List.monotone_filter_right codecs fun codec hcodec => ?_
  exact (Bool.and_eq_true_iff.mp hcodec).1

theorem ambiguityCheck_iff (h : generateParts d node = .ok codecs) (frame : CanFrame) :
    (laterPairs (dispatchTpdos codecs)).any (ambiguityCheck frame) = true ↔
      2 ≤ (addressed codecs frame).length := by
  rw [addressed, ← List.countP_eq_length_filter, two_le_countP_iff, List.any_eq_true]
  refine exists_congr fun pair => and_congr_right fun hpair => ?_
  rw [ambiguityCheck, Bool.and_assoc, Bool.and_eq_true_iff, Bool.and_eq_true_iff]
  refine and_iff_right_of_imp fun ⟨hfirst, hsecond⟩ => ?_
  obtain ⟨hmem, hmem'⟩ := mem_of_mem_laterPairs hpair
  have hcob := generateParts_cobId h (List.mem_of_mem_filter hmem)
  have hcob' := generateParts_cobId h (List.mem_of_mem_filter hmem')
  refine nodeIdDependentCollision_of_eq (ne_of_nodup_map (nodup_dispatchTpdos h) hpair) hcob ?_
  rw [hcob', ← eq_of_beq hfirst, ← eq_of_beq hsecond]

theorem decodeArms_eq (frame : CanFrame) (tpdos : List (PdoDef × PdoCodec)) :
    decodeArms frame tpdos =
      match tpdos.filter fun codec => frame.id == codec.2.cobId with
      | [] => .ok none
      | codec :: _ => (codec.2.decodeTpdo frame).map fun payload => some (codec.1.number, payload) := by
  induction tpdos with
  | nil => rfl
  | cons codec rest ih =>
    obtain ⟨p, c⟩ := codec
    rw [decodeArms, List.filter_cons]
    by_cases hid : frame.id = c.cobId
    · rw [if_pos hid, if_pos (beq_iff_eq.mpr hid)]
    · rw [if_neg hid, if_neg (mt beq_iff_eq.mp hid), ih]

theorem decode_eq (h : generateParts d node = .ok codecs) (frame : CanFrame) :
    decode codecs frame =
      match addressed codecs frame with
      | [] => .ok none
      | [codec] => (codec.2.decodeTpdo frame).map fun payload => some (codec.1.number, payload)
      | _ => .error (.ambiguousCobId frame.id) := by
  have hcheck := ambiguityCheck_iff h frame
  rw [decode, decodeArms_eq, ← addressed]
  rcases haddressed : addressed codecs frame with _ | ⟨codec, _ | ⟨other, rest⟩⟩ <;> rw [haddressed] at hcheck
  · rw [if_neg (mt hcheck.mp (by simp))]
  · rw [if_neg (mt hcheck.mp (by simp))]
  · rw [if_pos (hcheck.mpr (by simp))]

theorem decodeTpdo_addressed (h : generateParts d node = .ok codecs) {frame : CanFrame}
    {codec : PdoDef × PdoCodec} (hmem : codec ∈ addressed codecs frame) :
    codec ∈ codecs ∧ codec.2.decodeTpdo frame =
      if frame.data.length < codec.1.payloadBytes then
        .error (.payloadTooShort codec.1.payloadBytes frame.data.length)
      else .ok (decodeField frame.data) := by
  obtain ⟨htpdo, hid⟩ := List.mem_filter.mp hmem
  have hcodec := List.mem_of_mem_filter htpdo
  refine ⟨hcodec, ?_⟩
  obtain ⟨-, -, -, hbytes⟩ := generatePdo_ok (generateCodecs_ok (generateParts_ok h).2 hcodec)
  rw [PdoCodec.decodeTpdo, if_neg (not_not.mpr (eq_of_beq hid)), hbytes]
  rfl

theorem codec_unique (h : generateParts d node = .ok codecs) {p : PdoDef} {c c' : PdoCodec}
    (hc : (p, c) ∈ codecs) (hc' : (p, c') ∈ codecs) : c = c' := by
  have hgen := generateCodecs_ok (generateParts_ok h).2 hc
  rw [generateCodecs_ok (generateParts_ok h).2 hc'] at hgen
  cases hgen
  rfl

/-- A frame is decoded by the one active transmit PDO that has its identifier on the node, refused as
too short or ambiguous, or passed over. -/
theorem decode_unambiguous (h : generateParts d node = .ok codecs) (frame : CanFrame) :
    (decode codecs frame = .ok none ↔ d.resolvingTpdos node frame.id = []) ∧
      (decode codecs frame = .error (.ambiguousCobId frame.id) ↔
        2 ≤ (d.resolvingTpdos node frame.id).length) ∧
      ((∃ expected actual, decode codecs frame = .error (.payloadTooShort expected actual)) ↔
        ∃ p, d.resolvingTpdos node frame.id = [p] ∧ frame.data.length < p.payloadBytes) ∧
      ∀ number payload, decode codecs frame = .ok (some (number, payload)) ↔
        ∃ p c, d.resolvingTpdos node frame.id = [p] ∧ (p, c) ∈ codecs ∧ p.number = number ∧
          p.payloadBytes ≤ frame.data.length ∧ c.decodeTpdo frame = .ok payload := by
  rw [decode_eq h, ← addressed_fst h]
  rcases haddressed : addressed codecs frame with _ | ⟨⟨p, c⟩, _ | ⟨other, rest⟩⟩
  · simp
  · obtain ⟨hcodec, hdecode⟩ := decodeTpdo_addressed h (haddressed ▸ List.mem_singleton_self (p, c))
    have hother : ∀ c', (p, c') ∈ codecs → c'.decodeTpdo frame = c.decodeTpdo frame :=
      fun c' hc' => by rw [codec_unique h hc' hcodec]
    dsimp only at hdecode ⊢
    by_cases hshort : frame.data.length < p.payloadBytes
    · rw [if_pos hshort] at hdecode
      simp [hdecode, hshort, Except.map]
    · rw [if_neg hshort] at hdecode
      rw [hdecode]
      simp only [Except.map, List.map_cons, List.map_nil, List.cons.injEq, and_true]
      refine ⟨by simp, by simp, ?_, fun number payload => ⟨fun heq => ?_, ?_⟩⟩
      · refine iff_of_false (by simp) ?_
        rintro ⟨p', rfl, hlt⟩
        exact hshort hlt
      · cases heq
        exact ⟨p, c, rfl, hcodec, rfl, Nat.not_lt.mp hshort, hdecode⟩
      · rintro ⟨p', c', rfl, hc', rfl, -, hpayload⟩
        rw [hother c' hc', hdecode] at hpayload
        cases hpayload
        rfl
  · simp

end

def relativeTpdo : PdoDef := ⟨.tpdo, 1, none, 255, 0, 0, false, [0x20010010]⟩

def absoluteTpdo : PdoDef := ⟨.tpdo, 2, some (.absolute 0x185), 255, 0, 0, false, [0x20010010]⟩

/-- A device of which two transmit PDOs have one identifier, on node 5. -/
def crossingDefinition : OdDefinition where
  entries := [⟨0x2001, .var ⟨.u16, .rw, true, none, [0x34, 0x12]⟩⟩]
  pdos := [relativeTpdo, absoluteTpdo]
  sdoServers := []
  edsCompressed := []

def crossingNode : NodeId := (NodeId.new 5).get (Eq.refl true)

def crossingFrame : CanFrame := .literal 0x185 [0x34, 0x12]

theorem decode_unambiguous_crossing :
    ∃ codecs, generateParts crossingDefinition crossingNode = .ok codecs ∧
      decode codecs crossingFrame = .error (.ambiguousCobId 0x185) := by
  have hgen : generateParts crossingDefinition crossingNode =
      .ok [(relativeTpdo, ⟨0x185, [⟨0x2001, 0, .u16, 0, 16⟩], 2⟩),
        (absoluteTpdo, ⟨0x185, [⟨0x2001, 0, .u16, 0, 16⟩], 2⟩)] := by decide
  exact ⟨_, hgen, (decode_unambiguous hgen crossingFrame).2.1.mpr (by decide)⟩

end Canopen.Derive
