import Canopen.Lib.ByteBits
import Canopen.Node.Collisions

/-!
# Heartbeat consumer entries

Downloads to 0x1016 on any number of channels (`sdo/server.rs`). A download is checked
against the other entries when it is committed, and a commit is not interrupted, so no
order of the requests lets two entries monitor the same node.
-/

namespace Canopen

open LittleEndian Derive Sdo

/-! ## Entries -/

/-- An entry of 0x1016 as it is read: a word of four bytes. -/
def consumerEntry (od : GeneratedOd) (sub : UInt8) : Option UInt32 :=
  match ObjectDictionary.read od 0x1016 sub (FixedBuffer.filled 4 0) with
  | (.ok len, buf) => if len.1 = 4 then some (word32 buf.cells) else none
  | (.error _, _) => none

def consumerNode (entry : UInt32) : UInt32 := (entry >>> 16) &&& 0xFF

/-- A consumer time of 0 disables the entry. -/
def consumerActive (entry : UInt32) : Bool := entry &&& 0xFFFF != 0

/-- Reserved bits are zero, an active entry names a node, and no two active entries name
the same one. -/
structure ConsumersValid (od : GeneratedOd) : Prop where
  reserved : ∀ sub entry, sub ≠ 0 → consumerEntry od sub = some entry → entry >>> 24 = 0
  node : ∀ sub entry, sub ≠ 0 → consumerEntry od sub = some entry → consumerActive entry = true →
    1 ≤ consumerNode entry ∧ consumerNode entry ≤ 127
  unique : ∀ sub sub' entry entry', sub ≠ 0 → sub' ≠ 0 → consumerEntry od sub = some entry →
    consumerEntry od sub' = some entry' → consumerActive entry = true →
    consumerActive entry' = true → consumerNode entry = consumerNode entry' → sub = sub'

variable {od : GeneratedOd} {sub subindex : UInt8} {entry : UInt32}

theorem read_consumer (od : GeneratedOd) (sub : UInt8) (buf : FixedBuffer UInt8 4) :
    ObjectDictionary.read od 0x1016 sub buf = od.fields.read 0x1016 sub buf := rfl

theorem read_entry (h : consumerEntry od sub = some entry) (buf : FixedBuffer UInt8 4) :
    ∃ len buf', ObjectDictionary.read od 0x1016 sub buf = (.ok len, buf') ∧
      word32 buf'.cells = entry := by
  unfold consumerEntry at h
  rw [read_consumer] at h ⊢
  unfold OdFields.read at h ⊢
  cases ho : od.fields.object 0x1016 sub with
  | none =>
    simp only [ho] at h
    cases h
  | some o =>
    obtain ⟨access, value⟩ := o
    simp only [ho] at h ⊢
    by_cases hwo : access = .wo
    · simp only [hwo, if_true] at h
      cases h
    · rw [if_neg hwo] at h ⊢
      by_cases hle : value.length ≤ 4
      · rw [dif_pos hle] at h ⊢
        dsimp only at h
        split_ifs at h with hfour
        rw [FixedBuffer.cells_write_full _ hfour, Option.some_inj] at h
        exact ⟨_, _, rfl, by rw [FixedBuffer.cells_write_full _ hfour, h]⟩
      · rw [dif_neg hle] at h
        cases h

theorem consumerEntry_congr {od' : GeneratedOd}
    (h : od'.fields.object 0x1016 sub = od.fields.object 0x1016 sub) :
    consumerEntry od' sub = consumerEntry od sub := by
  unfold consumerEntry
  rw [read_consumer, read_consumer, OdFields.read_congr h]

theorem consumerEntry_of_object {access : AccessType} {value : List UInt8}
    (h : od.fields.object 0x1016 sub = some (access, value)) :
    consumerEntry od sub = if access ≠ .wo ∧ value.length = 4 then some (word32 value) else none := by
  unfold consumerEntry
  rw [read_consumer]
  unfold OdFields.read
  simp only [h]
  by_cases hwo : access = .wo
  · simp [hwo]
  · by_cases hle : value.length ≤ 4
    · rw [if_neg hwo, dif_pos hle]
      dsimp only
      by_cases hfour : value.length = 4
      · rw [if_pos hfour, if_pos ⟨hwo, hfour⟩, FixedBuffer.cells_write_full _ hfour]
      · rw [if_neg hfour, if_neg fun hboth => hfour hboth.2]
    · have hfour : value.length ≠ 4 := by omega
      rw [if_neg hwo, dif_neg hle, if_neg fun hboth => hfour hboth.2]

/-! ## The uniqueness rule -/

/-- The rule finds every other active entry for the node, whatever is in the buffer. -/
theorem taken_of_entry {subs : List UInt8} (hmem : sub ∈ subs) (hne : sub ≠ subindex)
    (h : consumerEntry od sub = some entry) (hactive : consumerActive entry = true)
    (buf : FixedBuffer UInt8 4) :
    heartbeatProducerTaken od 0x1016 subindex (consumerNode entry) subs buf = true := by
  induction subs generalizing buf with
  | nil => cases hmem
  | cons s subs ih =>
    unfold heartbeatProducerTaken
    rcases List.mem_cons.mp hmem with rfl | hmem
    · obtain ⟨len, buf', hread, hword⟩ := read_entry h buf
      have hboth : entry &&& 0xFFFF ≠ 0 ∧ (entry >>> 16) &&& 0xFF = consumerNode entry :=
        ⟨by simpa [consumerActive] using hactive, rfl⟩
      rw [if_neg hne, hread]
      dsimp only
      rw [hword, if_pos hboth]
    · split_ifs with hskip
      · exact ih hmem buf
      · split
        · dsimp only
          split_ifs
          · rfl
          · exact ih hmem _
        · exact ih hmem _

theorem mem_subIndices {count : UInt8} (hne : sub ≠ 0) (hle : sub ≤ count) :
    sub ∈ subIndices count := by
  have hpos : sub.toNat ≠ 0 := fun h => hne (UInt8.toNat_inj.mp h)
  have hcount : sub.toNat ≤ count.toNat := UInt8.le_iff_toNat_le.mp hle
  have hmember : UInt8.ofNat (sub.toNat - 1 + 1) = sub := by
    rw [Nat.sub_add_cancel (by omega), UInt8.ofNat_toNat]
  exact List.mem_map.mpr ⟨sub.toNat - 1, List.mem_range.mpr (by omega), hmember⟩

theorem ne_zero_of_mem_subIndices {count : UInt8} (h : sub ∈ subIndices count) : sub ≠ 0 := by
  obtain ⟨i, hi, rfl⟩ := List.mem_map.mp h
  have hlt : i < count.toNat := List.mem_range.mp hi
  have hcount : count.toNat < 256 := count.toNat_lt
  intro hzero
  have hnat : (i + 1) % 256 = 0 := by simpa using congrArg UInt8.toNat hzero
  omega

/-- The declared entries are 32 bits wide. -/
def Derive.OdDefinition.consumersAreWords (d : OdDefinition) : Bool :=
  (OdFields.new d).cells.all fun c =>
    !(c.info.index == 0x1016 && c.info.subindex != 0) || c.info.dataType.size == some 4

section Words

variable {d : OdDefinition} (hd : d.Valid) (h : od.fields.Typed d)
  (hwords : d.consumersAreWords = true)

include hd h hwords in
theorem consumer_lookup (hs : sub ≠ 0) {info : OdEntryMeta}
    (hl : od.fields.lookup 0x1016 sub = some info) : info.dataType.size = some 4 := by
  unfold OdFields.lookup at hl
  cases hc : od.fields.cell 0x1016 sub with
  | some c =>
    rw [hc] at hl
    cases hl
    have haddr := List.find?_some hc
    simp only [Bool.and_eq_true, beq_iff_eq] at haddr
    have hkey : (c.info, c.capacity) ∈ (OdFields.new d).cells.map fun c => (c.info, c.capacity) := by
      rw [← h.cells]
      exact List.mem_map_of_mem (List.mem_of_find?_eq_some hc)
    obtain ⟨c', hc', heq⟩ := List.mem_map.mp hkey
    have hword := List.all_eq_true.mp hwords c' hc'
    rw [(Prod.mk.inj heq).1, haddr.1, haddr.2] at hword
    simpa [hs] using hword
  | none =>
    rw [hc] at hl
    obtain ⟨o, ho, -⟩ := Option.map_eq_some_iff.mp hl
    have hlow := (cob_generatedObject hd h (by simp [isCobObject, hs]) ho).2
    exact absurd hlow (by decide)

include hd h hwords in
theorem entry_of_read (hs : sub ≠ 0) {buf buf' : FixedBuffer UInt8 4} {len : {len : ℕ // len ≤ 4}}
    (hread : ObjectDictionary.read od 0x1016 sub buf = (.ok len, buf')) :
    consumerEntry od sub = some (word32 buf'.cells) := by
  rw [read_consumer] at hread
  unfold OdFields.read at hread
  cases ho : od.fields.object 0x1016 sub with
  | none =>
    simp only [ho] at hread
    cases hread
  | some o =>
    obtain ⟨access, value⟩ := o
    simp only [ho] at hread
    obtain ⟨info, hl⟩ : ∃ info, od.fields.lookup 0x1016 sub = some info := by
      rw [← Option.isSome_iff_exists, lookup_isSome, ho]
      rfl
    obtain ⟨value', ho', hwidth⟩ := h.object_of_lookup hl
    obtain ⟨rfl, rfl⟩ := Prod.mk.inj (Option.some.inj (ho.symm.trans ho'))
    have hfour : value.length = 4 := hwidth 4 (consumer_lookup hd h hwords hs hl)
    by_cases hwo : info.access = .wo
    · rw [if_pos hwo] at hread
      cases hread
    · rw [if_neg hwo, dif_pos hfour.le] at hread
      obtain ⟨-, rfl⟩ := Prod.mk.inj hread
      rw [consumerEntry_of_object ho, if_pos ⟨hwo, hfour⟩, FixedBuffer.cells_write_full _ hfour]

include hd h hwords in
/-- Where every entry is a word, the rule finds nothing else. -/
theorem entry_of_taken
    {subs : List UInt8} (hzero : ∀ s ∈ subs, s ≠ 0) {node : UInt32} {buf : FixedBuffer UInt8 4}
    (ht : heartbeatProducerTaken od 0x1016 subindex node subs buf = true) :
    ∃ sub entry, sub ≠ 0 ∧ sub ≠ subindex ∧ consumerEntry od sub = some entry ∧
      consumerActive entry = true ∧ consumerNode entry = node := by
  induction subs generalizing buf with
  | nil => cases ht
  | cons s subs ih =>
    have htail := fun buf => @ih (fun s hs => hzero s (List.mem_cons_of_mem _ hs)) buf
    unfold heartbeatProducerTaken at ht
    split_ifs at ht with hskip
    · exact htail _ ht
    · split at ht
      · next len buf' hread =>
        dsimp only at ht
        split_ifs at ht with hboth
        · have hs : s ≠ 0 := hzero s List.mem_cons_self
          exact ⟨s, _, hs, hskip, entry_of_read hd h hwords hs hread,
            by simpa [consumerActive] using hboth.1, hboth.2⟩
        · exact htail _ ht
      · exact htail _ ht

end Words

/-- The rule leaves the node to the entry at a sub-index. -/
def ConsumerFree (od : GeneratedOd) (subindex : UInt8) (node : UInt32) : Prop :=
  heartbeatProducerTaken od 0x1016 subindex node
    (subIndices ((ObjectDictionary.subCount od 0x1016).getD 0)) (.filled 4 0) = false

theorem ConsumerFree.entry_ne {d : OdDefinition} (hd : d.Valid) (h : od.fields.Typed d)
    (hfree : ConsumerFree od subindex (consumerNode entry)) (hs : sub ≠ 0)
    (he : consumerEntry od sub = some entry) (hactive : consumerActive entry = true) :
    sub = subindex := by
  by_contra hne
  have hobject : (od.fields.object 0x1016 sub).isSome = true := by
    cases ho : od.fields.object 0x1016 sub with
    | none =>
      unfold consumerEntry at he
      rw [read_consumer, OdFields.read, ho] at he
      cases he
    | some o => rfl
  have hmem := mem_subIndices hs (subCount_covers hd h hs hobject)
  exact absurd hfree (by simp [ConsumerFree, ObjectDictionary.subCount, taken_of_entry hmem hne he hactive])

theorem consumerFree_of_entries {d : OdDefinition} (hd : d.Valid) (h : od.fields.Typed d)
    (hwords : d.consumersAreWords = true) {node : UInt32}
    (hnone : ∀ sub entry, sub ≠ 0 → sub ≠ subindex → consumerEntry od sub = some entry →
      consumerActive entry = true → consumerNode entry ≠ node) : ConsumerFree od subindex node := by
  unfold ConsumerFree
  rw [Bool.eq_false_iff]
  intro ht
  obtain ⟨sub, entry, hs, hne, he, hactive, hnode⟩ :=
    entry_of_taken hd h hwords (fun _ => ne_zero_of_mem_subIndices) ht
  exact hnone sub entry hs hne he hactive hnode

/-- What the rule asks of four bytes for an entry. -/
theorem validateHeartbeatConsumerWrite_ok_iff {sdoCobs : SdoCobIds} {syncCob : UInt16}
    {count : UInt8} {data : List UInt8} (hs : subindex ≠ 0) (hlen : data.length = 4) :
    validateHeartbeatConsumerWrite od sdoCobs syncCob count 0x1016 subindex data = .ok () ↔
      word32 data >>> 24 = 0 ∧ (consumerActive (word32 data) = true →
        (consumerNode (word32 data) ≠ 0 ∧ consumerNode (word32 data) ≤ 127) ∧
        ¬(subindex ≤ count ∧ (sdoCobs.claims (0x700 + (consumerNode (word32 data)).toUInt16) = true ∨
          0x700 + (consumerNode (word32 data)).toUInt16 = syncCob)) ∧
        ConsumerFree od subindex (consumerNode (word32 data))) := by
  unfold validateHeartbeatConsumerWrite consumerActive ConsumerFree consumerNode
  dsimp only
  rw [if_neg (by simp [hs, hlen])]
  split_ifs with hreserved htime hnode hcob htaken
  · simp [hreserved]
  · simp [not_not.mp hreserved, htime]
  all_goals
    have hactive : (word32 data &&& 0xFFFF != 0) = true := by simpa using htime
  · refine iff_of_false nofun fun h => ?_
    obtain ⟨⟨hzero, hmax⟩, -⟩ := h.2 hactive
    exact hnode.elim hzero (UInt32.not_lt.mpr hmax)
  · refine iff_of_false nofun fun h => ?_
    obtain ⟨-, hclear, -⟩ := h.2 hactive
    exact hclear hcob
  · refine iff_of_false nofun fun h => ?_
    obtain ⟨-, -, hfree⟩ := h.2 hactive
    exact absurd hfree (by simp [htaken])
  · refine iff_of_true rfl ⟨not_not.mp hreserved, fun _ => ⟨?_, hcob, by simpa using htaken⟩⟩
    rw [not_or, UInt32.not_lt] at hnode
    exact hnode

/-! ## Downloads -/

/-- An entry found after an accepted write was there before, or is what was written. -/
theorem entry_after_write {index : UInt16} {subindex : UInt8} {data : List UInt8}
    (hw : (ObjectDictionary.write od index subindex data).1 = .ok ())
    (he : consumerEntry (ObjectDictionary.write od index subindex data).2 sub = some entry) :
    (index, subindex) ≠ (0x1016, sub) ∧ consumerEntry od sub = some entry ∨
    (index, subindex) = (0x1016, sub) ∧ data.length = 4 ∧ entry = word32 data := by
  by_cases haddr : (index, subindex) = (0x1016, sub)
  · right
    obtain ⟨rfl, rfl⟩ := Prod.mk.inj haddr
    obtain ⟨info, -, -, -, hobject⟩ := object_write_self hw
    have hread : consumerEntry (ObjectDictionary.write od 0x1016 subindex data).2 subindex = _ :=
      consumerEntry_of_object hobject
    rw [hread] at he
    split_ifs at he with hboth
    have hstored : storedValue info.dataType data = data := by
      by_cases hbool : info.dataType = .boolean
      · rw [storedValue, if_pos hbool] at hboth
        cases hboth.2
      · exact if_neg hbool
    rw [hstored] at hboth he
    exact ⟨rfl, hboth.2, (Option.some.inj he).symm⟩
  · left
    have hsame : consumerEntry (ObjectDictionary.write od index subindex data).2 sub =
        consumerEntry od sub := consumerEntry_congr (OdFields.object_write_ne (Ne.symm haddr))
    exact ⟨haddr, hsame ▸ he⟩

/-- A download the server accepts keeps the entries valid. -/
theorem ConsumersValid.write {d : OdDefinition} (hd : d.Valid) (h : od.fields.Typed d)
    (hv : ConsumersValid od) {ctx : SdoContext} {index : UInt16} {data : List UInt8}
    (hvalid : validateDownload od ctx index subindex data = .ok ())
    (hw : (ObjectDictionary.write od index subindex data).1 = .ok ()) :
    ConsumersValid (ObjectDictionary.write od index subindex data).2 := by
  have hrule {sub : UInt8} (hs : sub ≠ 0) (haddr : (index, subindex) = (0x1016, sub))
      (hlen : data.length = 4) := by
    obtain ⟨rfl, rfl⟩ := Prod.mk.inj haddr
    exact (validateHeartbeatConsumerWrite_ok_iff hs hlen).mp (validateDownload_ok hvalid).1
  constructor
  · intro sub entry hs he
    rcases entry_after_write hw he with ⟨-, hold⟩ | ⟨haddr, hlen, rfl⟩
    · exact hv.reserved sub entry hs hold
    · exact (hrule hs haddr hlen).1
  · intro sub entry hs he hactive
    rcases entry_after_write hw he with ⟨-, hold⟩ | ⟨haddr, hlen, rfl⟩
    · exact hv.node sub entry hs hold hactive
    · obtain ⟨⟨hzero, hmax⟩, -⟩ := (hrule hs haddr hlen).2 hactive
      exact ⟨UInt32.le_iff_toNat_le.mpr (Nat.pos_of_ne_zero fun h => hzero (UInt32.toNat_inj.mp h)),
        hmax⟩
  · intro sub sub' entry entry' hs hs' he he' hactive hactive' hnode
    rcases entry_after_write hw he with ⟨hne, hold⟩ | ⟨haddr, hlen, rfl⟩ <;>
      rcases entry_after_write hw he' with ⟨hne', hold'⟩ | ⟨haddr', hlen', rfl⟩
    · exact hv.unique sub sub' entry entry' hs hs' hold hold' hactive hactive' hnode
    · obtain ⟨-, -, hfree⟩ := (hrule hs' haddr' hlen').2 hactive'
      rw [← hnode] at hfree
      obtain ⟨-, rfl⟩ := Prod.mk.inj haddr'
      exact hfree.entry_ne hd h hs hold hactive
    · obtain ⟨-, -, hfree⟩ := (hrule hs haddr hlen).2 hactive
      rw [hnode] at hfree
      obtain ⟨-, rfl⟩ := Prod.mk.inj haddr
      exact (hfree.entry_ne hd h hs' hold' hactive').symm
    · exact (Prod.mk.inj (haddr.symm.trans haddr')).2

/-! ## Channels -/

/-- The servers of a node over the one dictionary they write to. -/
structure SdoChannels (cap : ℕ) where
  servers : List SdoServer
  od : GeneratedOd
  events : Deque OdEvent cap
  writes : List OdWrite

namespace SdoChannels

variable {cap : ℕ}

def channel (c : SdoChannels cap) (server : SdoServer) : SdoState GeneratedOd cap :=
  ⟨server, c.od, c.events, c.writes⟩

def step (c : SdoChannels cap) (input : ℕ × SdoInput) : SdoChannels cap :=
  match c.servers[input.1]? with
  | none => c
  | some server =>
    let s := ((c.channel server).step input.2).1
    ⟨c.servers.set input.1 s.server, s.od, s.events, s.writes⟩

/-- Inputs on any channels, in the order they arrive. -/
def run (c : SdoChannels cap) (inputs : List (ℕ × SdoInput)) : SdoChannels cap := inputs.foldl step c

end SdoChannels

/-- An input leaves the dictionary, or writes a download that has passed the checks. -/
theorem step_od {cap : ℕ} (s : SdoState GeneratedOd cap) (input : SdoInput) :
    (s.step input).1.od = s.od ∨
    ∃ ctx index subindex data, validateDownload s.od ctx index subindex data = .ok () ∧
      (ObjectDictionary.write s.od index subindex data).1 = .ok () ∧
      (s.step input).1.od = (ObjectDictionary.write s.od index subindex data).2 := by
  cases input with
  | request frame ctx =>
    rcases processWithContext_cases s frame ctx with
      ⟨hsame, -⟩ | ⟨index, subindex, data, success, -, heq⟩
    · exact .inl hsame.od
    · change (s.processWithContext frame ctx).1.od = _ ∨ _
      simp only [SdoState.step, heq]
      rcases commitDownload_cases s ctx index subindex data success with
        ⟨code, -, h⟩ | ⟨e, code, -, hw, h⟩ | ⟨hvalid, hw, h⟩
      · left
        rw [h]
        rfl
      · left
        rw [h]
        exact Derive.write_refused _ _ _ _ e hw
      · right
        refine ⟨ctx, index, subindex, data, hvalid, hw, ?_⟩
        rw [h]
  | takeCommittedWrite => exact .inl rfl
  | pollBlockUpload nowUs => exact .inl (sameData_step (by simp) (by simp)).od
  | checkTimeout nowUs => exact .inl (sameData_step (by simp) (by simp)).od
  | abortTransfer => exact .inl rfl

/-- No order of inputs on any channels makes an entry invalid. -/
theorem run_consumersValid {cap : ℕ} {d : OdDefinition} (hd : d.Valid) {c : SdoChannels cap}
    (h : c.od.fields.Typed d) (hv : ConsumersValid c.od) (inputs : List (ℕ × SdoInput)) :
    (c.run inputs).od.fields.Typed d ∧ ConsumersValid (c.run inputs).od := by
  induction inputs generalizing c with
  | nil => exact ⟨h, hv⟩
  | cons input inputs ih =>
    suffices hstep : (c.step input).od.fields.Typed d ∧ ConsumersValid (c.step input).od from
      ih hstep.1 hstep.2
    unfold SdoChannels.step
    split
    · exact ⟨h, hv⟩
    · next server _ =>
      dsimp only
      rcases step_od (c.channel server) input.2 with hsame | ⟨ctx, index, sub, data, hvalid, hw, hod⟩
      · rw [hsame]
        exact ⟨h, hv⟩
      · rw [hod]
        exact ⟨h.write index sub data, hv.write hd h hvalid hw⟩

/-- The rule takes every entry that names the node and whose COB-ID no other service has. -/
def ConsumerPermitted (od : GeneratedOd) (sub : UInt8) (node : UInt32) : Prop :=
  ∀ sdoCobs syncCob count data, data.length = 4 → word32 data >>> 24 = 0 →
    consumerNode (word32 data) = node →
    ¬(sub ≤ count ∧ (sdoCobs.claims (0x700 + node.toUInt16) = true ∨ 0x700 + node.toUInt16 = syncCob)) →
    validateHeartbeatConsumerWrite od sdoCobs syncCob count 0x1016 sub data = .ok ()

theorem ConsumerFree.permitted {node : UInt32} (h : ConsumerFree od sub node) (hs : sub ≠ 0)
    (hnode : 1 ≤ node ∧ node ≤ 127) : ConsumerPermitted od sub node := by
  rintro sdoCobs syncCob count data hlen hreserved rfl hclear
  rw [validateHeartbeatConsumerWrite_ok_iff hs hlen]
  refine ⟨hreserved, fun _ => ⟨⟨?_, hnode.2⟩, hclear, h⟩⟩
  intro hzero
  rw [hzero] at hnode
  exact absurd hnode.1 (by decide)

/-- The entries of 0x1016 stay valid through every order of requests on any number of
channels. An entry can always be rewritten with its own node, and disabling it passes
the rule and leaves its node to every other entry. -/
theorem heartbeat_consumers_stay_valid {cap : ℕ} {d : OdDefinition} (hd : d.validate = true)
    {c : SdoChannels cap} (h : c.od.fields.Typed d) (hv : ConsumersValid c.od)
    (inputs : List (ℕ × SdoInput)) :
    ConsumersValid (c.run inputs).od ∧
    (d.consumersAreWords = true → ∀ sub entry, sub ≠ 0 →
      consumerEntry (c.run inputs).od sub = some entry → consumerActive entry = true →
      ConsumerPermitted (c.run inputs).od sub (consumerNode entry) ∧
      ∀ data, data.length = 4 → word32 data >>> 24 = 0 → consumerActive (word32 data) = false →
        (∀ sdoCobs syncCob count,
          validateHeartbeatConsumerWrite (c.run inputs).od sdoCobs syncCob count 0x1016 sub data =
            .ok ()) ∧
        ((ObjectDictionary.write (c.run inputs).od 0x1016 sub data).1 = .ok () → ∀ sub', sub' ≠ 0 →
          ConsumerPermitted (ObjectDictionary.write (c.run inputs).od 0x1016 sub data).2 sub'
            (consumerNode entry))) := by
  have hvalid := OdDefinition.valid hd
  obtain ⟨htyped, hv⟩ := run_consumersValid hvalid h hv inputs
  generalize (c.run inputs).od = od at htyped hv ⊢
  refine ⟨hv, fun hwords sub entry hs he hactive => ?_⟩
  have hnode := hv.node sub entry hs he hactive
  refine ⟨ConsumerFree.permitted ?_ hs hnode, fun data hlen hreserved hdisabled => ⟨?_, ?_⟩⟩
  · apply consumerFree_of_entries hvalid htyped hwords
    intro sub' entry' hs' hne he' hactive' hnode'
    exact hne (hv.unique sub' sub entry' entry hs' hs he' he hactive' hactive hnode')
  · intro sdoCobs syncCob count
    rw [validateHeartbeatConsumerWrite_ok_iff hs hlen]
    exact ⟨hreserved, fun h => absurd h (by simp [hdisabled])⟩
  · intro hw sub' hs'
    refine ConsumerFree.permitted ?_ hs' hnode
    apply consumerFree_of_entries hvalid (htyped.write 0x1016 sub data) hwords
    intro s entry' hs _ he' hactive' hnode'
    -- the entry that named the node is the disabled one
    rcases entry_after_write hw he' with ⟨hother, hold⟩ | ⟨-, -, rfl⟩
    · obtain rfl := hv.unique s sub entry' entry hs ‹_› hold he hactive' hactive hnode'
      exact hother rfl
    · exact absurd hactive' (by simp [hdisabled])

/-- Entries that are all zero monitor nothing. -/
theorem consumersValid_of_zero
    (h : ∀ sub entry, consumerEntry od sub = some entry → entry = 0) : ConsumersValid od where
  reserved := by
    intro sub entry _ he
    rw [h sub entry he]
    rfl
  node := by
    intro sub entry _ he hactive
    rw [h sub entry he] at hactive
    cases hactive
  unique := by
    intro sub sub' entry entry' _ _ he _ hactive
    rw [h sub entry he] at hactive
    cases hactive

/-- A device that monitors up to two nodes. -/
def monitorDefinition : OdDefinition :=
  { sampleDefinition with
    entries := ⟨0x1016, .array ⟨.u32, .rw, false, 2⟩⟩ :: sampleDefinition.entries }

def monitorChannels : SdoChannels 4 :=
  ⟨[.new, .new], ⟨OdFields.new monitorDefinition, none⟩, .empty, []⟩

/-- While one channel transfers an entry for node 5, another writes one. The first
transfer ends with an abort. The entry can be rewritten, and once it is disabled, the node can
move to the other one. -/
theorem heartbeat_consumers_stay_valid_twice :
    let ctx := SdoContext.standalone .operational 0
    let inputs := [
      (0, .request (.initiate 0x21 0x1016 2 [4, 0, 0, 0]) ctx),
      (1, .request (.initiate 0x23 0x1016 1 [0x64, 0, 5, 0]) ctx),
      (0, .request (.segment 0x07 [0xC8, 0, 5, 0]) ctx)]
    let od := (monitorChannels.run inputs).od
    consumerEntry od 1 = some 0x50064 ∧ consumerEntry od 2 = some 0 ∧ ConsumersValid od ∧
      ConsumerPermitted od 1 5 ∧
      ConsumerPermitted (ObjectDictionary.write od 0x1016 1 [0, 0, 0, 0]).2 2 5 := by
  intro ctx inputs od
  have hd : monitorDefinition.validate = true := by decide
  have hzero : ConsumersValid monitorChannels.od := by
    apply consumersValid_of_zero
    intro sub entry he
    have hall : ∀ s, ((consumerEntry monitorChannels.od s).all (· == 0)) = true := by
      apply ByteBits.forall_byte
      decide
    simpa [he] using hall sub
  have hentry : consumerEntry od 1 = some 0x50064 := by decide
  obtain ⟨hvalid, hpermitted⟩ :=
    heartbeat_consumers_stay_valid hd (typed_new (OdDefinition.valid hd)) hzero inputs
  obtain ⟨hrewrite, hdisable⟩ := hpermitted (by decide) 1 0x50064 (by decide) hentry (by decide)
  have hmove := (hdisable [0, 0, 0, 0] rfl (by decide) (by decide)).2
  exact ⟨hentry, by decide, hvalid, hrewrite, hmove (by decide) 2 (by decide)⟩

end Canopen
