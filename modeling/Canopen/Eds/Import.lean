import Mathlib.Data.List.Sort
import Canopen.Eds.CobIds
import Canopen.Eds.Definition

/-!
# EDS import

The importer reads an EDS text into sections, and the object sections into entries and PDOs
(`eds_parser.rs`). Errors keep what their messages name. Hash maps are lists here: the
entries are sorted at the end, and no index has two records.
-/

namespace Canopen.Eds

open Derive (CobIdSpec PdoDirection)
open Pdo Text

/-! ## Sections -/

abbrev Props := List (List Char × List Char)

structure Section where
  name : List Char
  props : Props
  deriving DecidableEq, Repr

/-- The parser of the file format between two lines. -/
structure ParseState where
  currentSection : List Char
  sectionProps : Props
  sections : List Section
  deriving DecidableEq, Repr

namespace ParseState

def init : ParseState := ⟨[], [], []⟩

/-- The current section, if it has a name, is complete. -/
def flush (s : ParseState) : List Section :=
  if s.currentSection.isEmpty then s.sections
  else s.sections ++ [⟨s.currentSection, s.sectionProps⟩]

/-- Properties in front of the first named section go to that section. -/
def parseLine (s : ParseState) (line : List Char) : ParseState :=
  let line := trim line
  if line.isEmpty || line.head? == some ';' then s
  else if line.head? == some '[' && line.getLast? == some ']' then
    ⟨(line.drop 1).dropLast, if s.currentSection.isEmpty then s.sectionProps else [], s.flush⟩
  else
    match splitOnce ['='] line with
    | some (key, value) => { s with sectionProps := s.sectionProps ++ [(trim key, trim value)] }
    | none => s

end ParseState

/-- The sections of an EDS text, in order. -/
def parseSections (content : List Char) : List Section :=
  ((lines content).foldl ParseState.parseLine ParseState.init).flush

/-- An address as a section names it. -/
abbrev Address := UInt16 × Option UInt8

/-- Only ASCII letters have a lower-case form among the characters read here. -/
def parseSectionIndex (section_ : List Char) : Option Address :=
  let lower := lowercase section_
  match splitOnce "sub".toList lower with
  | some (idxStr, subStr) =>
    (fromStrRadix 16 (2 ^ 16) idxStr).bind fun index =>
      ((fromStrRadix 16 256 subStr).or (fromStrRadix 10 256 subStr)).map fun sub =>
        (UInt16.ofNat index, some (UInt8.ofNat sub))
  | none =>
    (fromStrRadix 16 (2 ^ 16) lower).bind fun index =>
      if 0x1000 ≤ index then some (UInt16.ofNat index, none) else none

def Section.address (s : Section) : Option Address := parseSectionIndex s.name

def getProp (props : Props) (key : List Char) : Option (List Char) :=
  (props.find? fun p => eqIgnoreAsciiCase p.1 key).map (·.2)

/-! ## Errors -/

inductive EdsError
  | duplicateSection (address : Address) (previous current : List Char)
  | invalidDataType (raw name : List Char)
  | unknownAccessType (access : List Char) (index : UInt16) (subindex : UInt8) (name : List Char)
  | invalidDefault (value : List Char) (typeName : DataType) (index : UInt16) (subindex : UInt8)
      (name : List Char)
  | invalidExpr (text : List Char)
  /-- A panic: the name is no identifier. -/
  | invalidIdent (name : List Char)
  | invalidCobId (raw : List Char) (index : UInt16)
  | invalidParameter (what raw : List Char) (index : UInt16) (subindex : UInt8)
  | doesNotFit (what raw : List Char) (index : UInt16) (subindex : UInt8) (width : ℕ)
  | mappingCount (count : ℕ) (index : UInt16)
  | reservedTransmissionType (value : UInt8) (index : UInt16)
  | rtrTransmissionType (value : UInt8) (index : UInt16)
  deriving DecidableEq, Repr

/-- No address has two sections; `seen` are the ones before. -/
def validateUniqueObjectSections (seen : List (Address × List Char)) :
    List Section → Except EdsError Unit
  | [] => .ok ()
  | s :: rest =>
    match s.address with
    | none => validateUniqueObjectSections seen rest
    | some address =>
      match seen.find? (·.1 == address) with
      | some previous => .error (.duplicateSection address previous.2 s.name)
      | none => validateUniqueObjectSections (seen ++ [(address, s.name)]) rest

/-- The data type of an object section, if there is one, is a number of 16 bits. -/
def validateDataTypes : List Section → Except EdsError Unit
  | [] => .ok ()
  | s :: rest =>
    if s.address.isSome then
      match (getProp s.props "DataType".toList).filter fun v => !(trim v).isEmpty with
      | some raw =>
        if ((parseInt raw).filter (· < 2 ^ 16)).isNone then .error (.invalidDataType raw s.name)
        else validateDataTypes rest
      | none => validateDataTypes rest
    else validateDataTypes rest

/-! ## Variables -/

/-- What the importer uses of the language: the characters of names and which texts are
identifiers and expressions. -/
structure Lang where
  isAlphanumeric : Char → Bool
  isIdent : List Char → Bool
  isExpr : List Char → Bool

section

variable (lang : Lang)

def sanitizeName (name : List Char) : List Char :=
  let s := name.map fun c => if lang.isAlphanumeric c then c.toLower else '_'
  if s.head?.any fun c => (digitValue 10 c).isSome then '_' :: s
  else if s.isEmpty then "_unnamed".toList
  else s

def newIdent (name : List Char) : Except EdsError (List Char) :=
  if lang.isIdent name then .ok name else .error (.invalidIdent name)

def parseAccess (access : List Char) : Option AccessType :=
  let lower := lowercase (trim access)
  if lower = "ro".toList then some .ro
  else if lower = "const".toList then some .const
  else if lower = "rw".toList ∨ lower = "rwr".toList ∨ lower = "rww".toList then some .rw
  else if lower = "wo".toList then some .wo
  else none

def defaultCapacity : DataType → ℕ
  | .visibleString => 64
  | .octetString => 256
  | .domain => 512
  | _ => 256

/-- Numbers and booleans are expressions; other literals are read as source text. -/
def parseLiteral (lit : Literal) : Except EdsError Literal :=
  match lit with
  | .source text => if lang.isExpr text then .ok lit else .error (.invalidExpr text)
  | _ => .ok lit

/-- The text of a string is kept, other variable-length values start empty. -/
def stringDefault (t : DataType) (value : List Char) : Option Literal :=
  if t = .visibleString then
    let stripped := trimMatches (· == '"') (trim value)
    if stripped.isEmpty then none
    else
      let text := '"' :: stripped ++ ['"']
      if lang.isExpr text then some (.source text) else none
  else none

def dataTypeCode (props : Props) : Option UInt16 :=
  (((getProp props "DataType".toList).bind parseInt).filter (· < 2 ^ 16)).map fun n : ℕ => UInt16.ofNat n

def readAccess (props : Props) (index : UInt16) (subindex : UInt8) (name : List Char) :
    Except EdsError AccessType :=
  let accessStr := (getProp props "AccessType".toList).getD "ro".toList
  match parseAccess accessStr with
  | some access => .ok access
  | none => .error (.unknownAccessType (lowercase (trim accessStr)) index subindex name)

def readDefault (typeName : DataType) (code : UInt16) (props : Props) (index : UInt16)
    (subindex : UInt8) (name : List Char) : Except EdsError (Option Literal) :=
  let defaultStr := (getProp props "DefaultValue".toList).getD "0".toList
  if typeName.size.isNone then .ok (stringDefault lang typeName defaultStr)
  else
    match normalizeDefault defaultStr code with
    | none => .error (.invalidDefault (trim defaultStr) typeName index subindex name)
    | some lit => (parseLiteral lang lit).map some

/-- The capacity of a variable-length value. -/
def readCapacity (capacityOverrides : UInt16 → Option ℕ) (index : UInt16) (t : DataType) : Option ℕ :=
  if t.size.isNone then some ((capacityOverrides index).getD (defaultCapacity t)) else none

def readPdoMapping (props : Props) : Bool := ((getProp props "PDOMapping".toList).bind parseInt).getD 0 != 0

/-- `parse_var_entry`: the object a section declares, if it has a name and a supported type. -/
def parseVarEntry (capacityOverrides : UInt16 → Option ℕ) (index : UInt16) (subindex : UInt8)
    (props : Props) : Except EdsError (Option SubEntry) :=
  match getProp props "ParameterName".toList, dataTypeCode props with
  | some name, some code =>
    match datatypeToRust code with
    | none => .ok none
    | some typeName =>
      (readAccess props index subindex name).bind fun access =>
        (readDefault lang typeName code props index subindex name).bind fun defaultValue =>
          (newIdent lang (sanitizeName lang name)).map fun ident =>
            some ⟨subindex, ident, ⟨typeName, readCapacity capacityOverrides index typeName, defaultValue,
              access, readPdoMapping props⟩⟩
  | _, _ => .ok none

/-! ## Entries -/

/-- PDO communication and mapping records. -/
def isPdoIndex (index : UInt16) : Bool :=
  0x1400 ≤ index && index ≤ 0x15FF || 0x1600 ≤ index && index ≤ 0x17FF ||
    0x1800 ≤ index && index ≤ 0x19FF || 0x1A00 ≤ index && index ≤ 0x1BFF

/-- The sections that become entries: the PDO records and the two EDS objects are generated. -/
def objectSections (sections : List Section) : List (Address × Props) :=
  sections.filterMap fun s => s.address.bind fun a =>
    if isPdoIndex a.1 || a.1 == 0x1021 || a.1 == 0x1022 then none else some (a, s.props)

/-- The results that are there, or the first error. -/
def collect {α β ε : Type} (f : α → Except ε (Option β)) : List α → Except ε (List β)
  | [] => .ok []
  | a :: l =>
    match f a with
    | .error e => .error e
    | .ok b => (collect f l).map (b.toList ++ ·)

/-- A variable when nothing is said. -/
def objectType (props : Props) : ℕ := ((getProp props "ObjectType".toList).bind parseInt).getD 0x07

def importVar (capacityOverrides : UInt16 → Option ℕ) : Address × Props → Except EdsError (Option OdEntry)
  | ((index, none), props) =>
    if objectType props = 0x07 then
      (parseVarEntry lang capacityOverrides index 0 props).map
        (·.map fun e => ⟨index, e.name, .var e.var⟩)
    else .ok none
  | _ => .ok none

/-- Sub-index 0 is generated. -/
def importSub (capacityOverrides : UInt16 → Option ℕ) (index : UInt16) :
    Address × Props → Except EdsError (Option SubEntry)
  | ((i, some sub), props) =>
    if i = index ∧ sub ≠ 0 then parseVarEntry lang capacityOverrides index sub props else .ok none
  | _ => .ok none

def mainProps (sections : List Section) (index : UInt16) : Option Props :=
  (sections.find? fun s => s.address == some (index, none)).map (·.props)

def mainName (sections : List Section) (index : UInt16) : List Char :=
  ((mainProps sections index).bind (getProp · "ParameterName".toList)).getD
    ("obj_".toList ++ lowercase (pad 4 (hex index.toNat)))

/-- A record when there is no main section. -/
def recordType (sections : List Section) (index : UInt16) : ℕ :=
  ((mainProps sections index).map objectType).getD 0x09

def isZeroDefault : Option Literal → Bool
  | none => true
  | some (.int z) => z == 0
  | some (.bool b) => !b
  | some (.source text) => text == "0.0f32".toList || text == "0.0f64".toList

/-- Sub-entries are named after their record. -/
def prefixName (recordPrefix : List Char) (e : SubEntry) : Except EdsError (Option SubEntry) :=
  (newIdent lang (recordPrefix ++ '_' :: e.name)).map fun name => some { e with name := name }

/-- Larger arrays without defaults become array entries, of the type, access and capacity of
their first element. Others are kept as records. -/
def entryKind (objType : ℕ) (subs : List SubEntry) : EntryKind :=
  match subs with
  | [] => .record []
  | first :: _ =>
    if objType = 0x08 ∧ 4 ≤ subs.length ∧ subs.all (isZeroDefault ·.var.defaultValue) then
      .array ⟨first.var.typeName, first.var.capacity, subs.length, first.var.access, first.var.pdoMappable⟩
    else .record subs

def importRecord (capacityOverrides : UInt16 → Option ℕ) (sections : List Section) (index : UInt16) :
    Except EdsError (Option OdEntry) :=
  (collect (importSub lang capacityOverrides index) (objectSections sections)).bind fun subs =>
    if subs.isEmpty then .ok none
    else
      let recordPrefix := sanitizeName lang (mainName sections index)
      (collect (prefixName lang recordPrefix) (subs.insertionSort fun a b => a.subindex ≤ b.subindex)).bind
        fun subs => (newIdent lang recordPrefix).map fun name =>
          some ⟨index, name, entryKind (recordType sections index) subs⟩

/-- The indices with sub-index sections. -/
def recordIndices (objects : List (Address × Props)) : List UInt16 :=
  (objects.filterMap fun o => o.1.2.map fun _ => o.1.1).dedup

def importEntries (capacityOverrides : UInt16 → Option ℕ) (sections : List Section) :
    Except EdsError (List OdEntry) :=
  let objects := objectSections sections
  (collect (importVar lang capacityOverrides) objects).bind fun vars =>
    (collect (importRecord lang capacityOverrides sections) (recordIndices objects)).map fun records =>
      (vars ++ records).insertionSort fun a b => a.index ≤ b.index

end

/-! ## PDOs -/

def getSectionProps (sections : List Section) (key : List Char) : Option Props :=
  (sections.find? fun s => eqIgnoreAsciiCase s.name key).map (·.props)

def indexText (index : UInt16) : List Char := pad 4 (hex index.toNat)

def subText (index : UInt16) (sub : UInt8) : List Char :=
  indexText index ++ "sub".toList ++ hex sub.toNat

def parsePdoCobIdDefault (props : Option Props) (index : UInt16) :
    Except EdsError (Option CobIdSpec) :=
  match props.bind (getProp · "DefaultValue".toList) with
  | none => .ok none
  | some raw =>
    if (trim raw).isEmpty then .ok none
    else
      match parsePdoCobId raw with
      | some spec => .ok (some spec)
      | none => .error (.invalidCobId raw index)

/-- A PDO parameter of a width in bits. A missing or empty value means the default. -/
def parsePdoDefault (props : Option Props) (default width : ℕ) (index : UInt16) (subindex : UInt8)
    (what : List Char) : Except EdsError ℕ :=
  match props.bind (getProp · "DefaultValue".toList) with
  | none => .ok default
  | some raw =>
    if (trim raw).isEmpty then .ok default
    else
      match parseInt raw with
      | none => .error (.invalidParameter what raw index subindex)
      | some value =>
        if value < 2 ^ width then .ok value
        else .error (.doesNotFit what raw index subindex width)

def parsePdoMappingCount (props : Option Props) (index : UInt16) : Except EdsError ℕ :=
  match parsePdoDefault props 0 8 index 0 "PDO mapping count".toList with
  | .error e => .error e
  | .ok count => if pdoMaxMappings < count then .error (.mappingCount count index) else .ok count

def validatePdoTransmissionType (value : UInt8) (direction : PdoDirection) (index : UInt16) :
    Except EdsError Unit :=
  if 241 ≤ value ∧ value ≤ 251 then .error (.reservedTransmissionType value index)
  else if direction = .rpdo ∧ (value = 252 ∨ value = 253) then .error (.rtrTransmissionType value index)
  else .ok ()

/-- Whether the mapping is mutable. -/
def mappingKindFromAccess (access : Option (List Char)) : Bool :=
  match access.map lowercase with
  | some lower => !(lower == "ro".toList || lower == "const".toList)
  | none => true

def markSub (sub : UInt8) : List SubEntry → Option (List Char × List SubEntry)
  | [] => none
  | s :: subs =>
    if s.subindex = sub then some (s.name, { s with var := { s.var with pdoMappable := true } } :: subs)
    else (markSub sub subs).map fun (name, subs) => (name, s :: subs)

/-- The entry of an address, marked as mappable, and its name. Array elements have no name. -/
def markEntry (index : UInt16) (sub : UInt8) (e : OdEntry) : Option (List Char × OdEntry) :=
  match e.kind with
  | .var v =>
    if e.index = index ∧ sub = 0 then
      some (e.name, { e with kind := .var { v with pdoMappable := true } })
    else none
  | .record subs =>
    if e.index = index then
      (markSub sub subs).map fun (name, subs) => (name, { e with kind := .record subs })
    else none
  | .array _ => none

def markFirst (index : UInt16) (sub : UInt8) : List OdEntry → Option (List Char × List OdEntry)
  | [] => none
  | e :: es =>
    match markEntry index sub e with
    | some (name, e') => some (name, e' :: es)
    | none => (markFirst index sub es).map fun (name, es) => (name, e :: es)

/-- The field a mapping value stands for, if there is one, and the marked entries. -/
def resolveMapping (mappingVal : UInt32) (entries : List OdEntry) :
    Option PdoMappingDef × List OdEntry :=
  let mappedIndex := (mappingVal >>> 16).toUInt16
  let mappedSub := (mappingVal >>> 8).toUInt8
  let bitLength := mappingVal.toUInt8
  if isDummyMappingIndex mappedIndex then
    (some ⟨"__dummy_mapping".toList, some bitLength, some mappingVal⟩, entries)
  else
    match markFirst mappedIndex mappedSub entries with
    | some (name, entries) => (some ⟨name, some bitLength, none⟩, entries)
    | none => (none, entries)

def mappingValue (sections : List Section) (mapIdx : UInt16) (sub : UInt8) : Except EdsError ℕ :=
  parsePdoDefault (getSectionProps sections (subText mapIdx sub)) 0 32 mapIdx sub
    "PDO mapping descriptor".toList

/-- The mapping entries of a record: a value that resolves to nothing is passed over. -/
def importMappings (sections : List Section) (mapIdx : UInt16) :
    List UInt8 → List OdEntry → Except EdsError (List PdoMappingDef × List OdEntry)
  | [], entries => .ok ([], entries)
  | sub :: subs, entries =>
    (mappingValue sections mapIdx sub).bind fun val =>
      let r := if val = 0 then (none, entries) else resolveMapping (UInt32.ofNat val) entries
      (importMappings sections mapIdx subs r.2).map fun rest => (r.1.toList ++ rest.1, rest.2)

def commProps (sections : List Section) (commIdx : UInt16) (sub : UInt8) : Option Props :=
  getSectionProps sections (subText commIdx sub)

def readTransmissionType (sections : List Section) (direction : PdoDirection) (commIdx : UInt16) :
    Except EdsError UInt8 :=
  (parsePdoDefault (commProps sections commIdx 2) 255 8 commIdx 2 "transmission type".toList).bind
    fun value => (validatePdoTransmissionType (UInt8.ofNat value) direction commIdx).map fun _ =>
      UInt8.ofNat value

/-- Receive PDOs have no inhibit time. -/
def readInhibitTime (sections : List Section) (direction : PdoDirection) (commIdx : UInt16) :
    Except EdsError ℕ :=
  match direction with
  | .tpdo => parsePdoDefault (commProps sections commIdx 3) 0 16 commIdx 3 "inhibit time".toList
  | .rpdo => .ok 0

def mappedSubs (count : ℕ) : List UInt8 := (List.range count).map fun i => UInt8.ofNat (i + 1)

/-- The PDO of a number, if it has a communication record. -/
def importPdo (sections : List Section) (direction : PdoDirection) (n : ℕ) (entries : List OdEntry) :
    Except EdsError (Option PdoDef × List OdEntry) :=
  let commIdx := direction.commBase + UInt16.ofNat n
  let mapIdx := direction.mapBase + UInt16.ofNat n
  if (getSectionProps sections (indexText commIdx)).isNone then .ok (none, entries)
  else do
    let cobId ← parsePdoCobIdDefault (commProps sections commIdx 1) commIdx
    let transmissionType ← readTransmissionType sections direction commIdx
    let inhibitTime ← readInhibitTime sections direction commIdx
    let eventTimer ← parsePdoDefault (commProps sections commIdx 5) 0 16 commIdx 5 "event timer".toList
    let countProps := getSectionProps sections (subText mapIdx 0)
    let mapCount ← parsePdoMappingCount countProps mapIdx
    let mapped ← importMappings sections mapIdx (mappedSubs mapCount) entries
    return (some ⟨direction, UInt16.ofNat (n + 1), cobId, transmissionType, UInt16.ofNat inhibitTime,
      UInt16.ofNat eventTimer, mappingKindFromAccess (countProps.bind (getProp · "AccessType".toList)),
      mapped.1⟩, mapped.2)

def importPdos (sections : List Section) :
    List (PdoDirection × ℕ) → List OdEntry → Except EdsError (List PdoDef × List OdEntry)
  | [], entries => .ok ([], entries)
  | (direction, n) :: rest, entries => do
    let pdo ← importPdo sections direction n entries
    let pdos ← importPdos sections rest pdo.2
    return (pdo.1.toList ++ pdos.1, pdos.2)

/-- All PDO numbers, transmit PDOs first. -/
def pdoNumbers : List (PdoDirection × ℕ) :=
  (List.range 512).map (PdoDirection.tpdo, ·) ++ (List.range 512).map (PdoDirection.rpdo, ·)

/-- `parse_eds_content_with_overrides`: the entries and PDOs of an EDS text. -/
def parseEdsContent (lang : Lang) (capacityOverrides : UInt16 → Option ℕ) (content : List Char) :
    Except EdsError (List OdEntry × List PdoDef) := do
  let sections := parseSections content
  validateUniqueObjectSections [] sections
  validateDataTypes sections
  let entries ← importEntries lang capacityOverrides sections
  let imported ← importPdos sections pdoNumbers entries
  return (imported.2, imported.1)

/-! ## Section names -/

theorem digits_indexText (index : UInt16) : digits 16 (indexText index) = some index.toNat :=
  digits_pad (by omega) 4 (digits_hex index.toNat)

theorem parseSectionIndex_congr {a b : List Char} (h : lowercase a = lowercase b) :
    parseSectionIndex a = parseSectionIndex b := by
  unfold parseSectionIndex
  rw [h]

theorem s_not_mem_lowercase {l : List Char} {n : ℕ} (h : digits 16 l = some n) : 's' ∉ lowercase l := by
  intro hmem
  rw [← digits_lowercase] at h
  exact absurd (digitValue_of_digits h 's' hmem) (by decide)

theorem fromStrRadix_lowercase {l : List Char} {n bound : ℕ} (h : digits 16 l = some n)
    (hn : n < bound) : fromStrRadix 16 bound (lowercase l) = some n :=
  fromStrRadix_of_digits ((digits_lowercase 16 l).trans h) hn

theorem parseSectionIndex_sub {idx sub : List Char} {index subindex : ℕ}
    (hidx : digits 16 idx = some index) (hindex : index < 2 ^ 16) (hsub : digits 16 sub = some subindex)
    (hsubindex : subindex < 256) :
    parseSectionIndex (idx ++ "sub".toList ++ sub) =
      some (UInt16.ofNat index, some (UInt8.ofNat subindex)) := by
  have hlower : lowercase (idx ++ "sub".toList ++ sub) =
      lowercase idx ++ 's' :: ['u', 'b'] ++ lowercase sub := by
    simp only [lowercase, List.map_append]
    rfl
  have hsplit := splitOnce_append (s_not_mem_lowercase hidx) ['u', 'b'] (lowercase sub)
  rw [← hlower] at hsplit
  simp only [parseSectionIndex]
  rw [show "sub".toList = ['s', 'u', 'b'] from rfl] at hsplit ⊢
  rw [hsplit]
  simp only [fromStrRadix_lowercase hidx hindex, fromStrRadix_lowercase hsub hsubindex,
    Option.bind_some, Option.some_or, Option.map_some]

theorem parseSectionIndex_main {idx : List Char} {index : ℕ} (hidx : digits 16 idx = some index)
    (hindex : index < 2 ^ 16) :
    parseSectionIndex idx = if 0x1000 ≤ index then some (UInt16.ofNat index, none) else none := by
  have hsplit := splitOnce_of_not_mem (s_not_mem_lowercase hidx) ['u', 'b']
  simp only [parseSectionIndex]
  rw [show "sub".toList = ['s', 'u', 'b'] from rfl, hsplit]
  simp only [fromStrRadix_lowercase hidx hindex, Option.bind_some]

theorem parseSectionIndex_subText (index : UInt16) (sub : UInt8) :
    parseSectionIndex (subText index sub) = some (index, some sub) := by
  rw [subText, parseSectionIndex_sub (digits_indexText index) index.toNat_lt (digits_hex sub.toNat)
    sub.toNat_lt, UInt16.ofNat_toNat, UInt8.ofNat_toNat]

theorem parseSectionIndex_indexText {index : UInt16} (h : 0x1000 ≤ index) :
    parseSectionIndex (indexText index) = some (index, none) := by
  have hnat : 0x1000 ≤ index.toNat := UInt16.le_iff_toNat_le.mp h
  rw [parseSectionIndex_main (digits_indexText index) index.toNat_lt, if_pos hnat, UInt16.ofNat_toNat]

/-! ## Numbers without a record -/

theorem lt_of_mem_pdoNumbers {number : PdoDirection × ℕ} (h : number ∈ pdoNumbers) : number.2 < 512 := by
  rcases List.mem_append.mp h with h | h <;> obtain ⟨n, hn, rfl⟩ := List.mem_map.mp h <;>
    exact List.mem_range.mp hn

theorem getSectionProps_eq_none {ss : List Section} {key : List Char} {b : Address} (hkey : parseSectionIndex key = some b)
    (h : ∀ s ∈ ss, s.address ≠ some b) : getSectionProps ss key = none := by
  unfold getSectionProps
  rw [Option.map_eq_none_iff, List.find?_eq_none]
  intro s hs hname
  apply h s hs
  rw [Section.address, parseSectionIndex_congr (beq_iff_eq.mp hname), hkey]

/-- Whether one of the addresses is the communication record of a PDO number. -/
def hasRecord (addresses : List Address) (number : PdoDirection × ℕ) : Bool :=
  addresses.any fun a => a.1.toNat == number.1.commBase.toNat + number.2 && a.2.isNone

theorem importPdo_of_no_record {sections : List Section} {direction : PdoDirection} {n : ℕ} (hn : n < 512)
    (h : hasRecord (sections.filterMap Section.address) (direction, n) = false) (entries : List OdEntry) :
    importPdo sections direction n entries = .ok (none, entries) := by
  have hidx : (direction.commBase + UInt16.ofNat n).toNat = direction.commBase.toNat + n := by
    rw [UInt16.toNat_add, UInt16.toNat_ofNat']
    cases direction <;> simp only [PdoDirection.commBase, UInt16.reduceToNat] <;> omega
  have hbase : 0x1000 ≤ direction.commBase + UInt16.ofNat n := by
    rw [UInt16.le_iff_toNat_le, hidx]
    cases direction <;> simp only [PdoDirection.commBase, UInt16.reduceToNat] <;> omega
  have hnone : getSectionProps sections (indexText (direction.commBase + UInt16.ofNat n)) = none := by
    refine getSectionProps_eq_none (parseSectionIndex_indexText hbase) fun s hs haddr => ?_
    have hmem := List.any_eq_false.mp h _ (List.mem_filterMap.mpr ⟨s, hs, haddr⟩)
    simp [hidx] at hmem
  unfold importPdo
  simp only [hnone, Option.isNone_none, if_true]

/-- The import of the PDOs passes over the numbers without a record. -/
theorem importPdos_recorded {sections : List Section} {numbers : List (PdoDirection × ℕ)}
    (hnumbers : ∀ number ∈ numbers, number.2 < 512) (entries : List OdEntry) :
    importPdos sections numbers entries =
      importPdos sections (numbers.filter (hasRecord (sections.filterMap Section.address))) entries := by
  induction numbers generalizing entries with
  | nil => rfl
  | cons number numbers ih =>
    obtain ⟨direction, n⟩ := number
    have ih := ih fun number hnumber => hnumbers number (List.mem_cons_of_mem _ hnumber)
    cases h : hasRecord (sections.filterMap Section.address) (direction, n) with
    | false =>
      rw [List.filter_cons_of_neg (by simp [h]), importPdos,
        importPdo_of_no_record (hnumbers _ List.mem_cons_self) h, ← ih]
      change (importPdos sections numbers entries).bind _ = _
      cases importPdos sections numbers entries <;> rfl
    | true =>
      rw [List.filter_cons_of_pos h, importPdos, importPdos]
      simp only [ih]

def recordNumber (direction : PdoDirection) (a : Address) : Option ℕ :=
  if direction.commBase.toNat ≤ a.1.toNat ∧ a.1.toNat < direction.commBase.toNat + 512 ∧ a.2 = none then
    some (a.1.toNat - direction.commBase.toNat)
  else none

/-- The numbers of one direction that have a record, in order. -/
def recordNumbers (addresses : List Address) (direction : PdoDirection) : List ℕ :=
  (addresses.filterMap (recordNumber direction)).dedup.insertionSort (· ≤ ·)

theorem filter_hasRecord (addresses : List Address) (direction : PdoDirection) :
    (List.range 512).filter (fun n => hasRecord addresses (direction, n)) =
      recordNumbers addresses direction := by
  have hmem (n : ℕ) : n ∈ recordNumbers addresses direction ↔
      n < 512 ∧ hasRecord addresses (direction, n) = true := by
    rw [recordNumbers, (List.perm_insertionSort _ _).mem_iff, List.mem_dedup, List.mem_filterMap, hasRecord,
      List.any_eq_true]
    simp only [recordNumber, Bool.and_eq_true, beq_iff_eq, Option.isNone_iff_eq_none]
    constructor
    · rintro ⟨a, ha, hn⟩
      split at hn
      · cases hn
        exact ⟨by omega, a, ha, by omega, by tauto⟩
      · cases hn
    · rintro ⟨hlt, a, ha, hidx, hnone⟩
      exact ⟨a, ha, by rw [if_pos ⟨by omega, by omega, hnone⟩, hidx, Nat.add_sub_cancel_left]⟩
  have hnodup : (recordNumbers addresses direction).Nodup :=
    (List.perm_insertionSort _ _).nodup_iff.mpr (List.nodup_dedup _)
  have hperm : ((List.range 512).filter fun n => hasRecord addresses (direction, n)).Perm
      (recordNumbers addresses direction) := by
    refine (List.perm_ext_iff_of_nodup (List.nodup_range.filter _) hnodup).mpr fun n => ?_
    rw [List.mem_filter, List.mem_range, hmem]
  exact hperm.eq_of_sortedLE (List.pairwise_le_range.filter _).sortedLE
    (List.pairwise_insertionSort _ _).sortedLE

/-- The import, with the numbers that have a record read off the section names. -/
theorem parseEdsContent_recorded (lang : Lang) (capacityOverrides : UInt16 → Option ℕ)
    (content : List Char) :
    parseEdsContent lang capacityOverrides content = (do
      let sections := parseSections content
      let addresses := sections.filterMap Section.address
      validateUniqueObjectSections [] sections
      validateDataTypes sections
      let entries ← importEntries lang capacityOverrides sections
      let imported ← importPdos sections ((recordNumbers addresses .tpdo).map (.tpdo, ·) ++
        (recordNumbers addresses .rpdo).map (.rpdo, ·)) entries
      return (imported.2, imported.1)) := by
  have hnumbers (addresses : List Address) : pdoNumbers.filter (hasRecord addresses) =
      (recordNumbers addresses .tpdo).map (.tpdo, ·) ++ (recordNumbers addresses .rpdo).map (.rpdo, ·) := by
    rw [pdoNumbers, List.filter_append, List.filter_map, List.filter_map, ← filter_hasRecord,
      ← filter_hasRecord]
    rfl
  simp only [parseEdsContent, importPdos_recorded fun _ => lt_of_mem_pdoNumbers, hnumbers]

end Canopen.Eds
