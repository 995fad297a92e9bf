import Mocha.LoadCommand.Types

/-!
# Segments and section headers (`LCSegment.swift`, `SectionHeader.swift`)

`LCSegment.init` reads the fixed part of `segment_command` or `segment_command_64` and then section
headers until the command's data is used up; the declared number of sections is checked last.

The section flags are one word. `SectionHeader` shows its low byte as the section type and the
three bytes above as the attributes, so the two fields carry these two parts of the word's bytes
(`Field.low8`, `Field.high24`).

`sectionHeader_init_eq_ok` and `segment_init_eq_ok` are what the initializers compute: they return
exactly on data of the right size with decodable names and types, and each field is the number at
its offset.
-/

namespace Mocha

open Lib DataShifter

/-! ## Names and flag words -/

/-- `dataShifter.shift(.rawNumber(16)).utf8String!.spaceRemoved`. -/
def DataShifter.shiftName (s : DataShifter) : Run (Field String × DataShifter) := do
  let (d, s) ← s.shift (.rawNumber 16)
  let name ← unwrap d.utf8String
  return (⟨spaceRemoved name, d.span⟩, s)

/-- `flags & 0x000000ff`, which the first of the word's bytes holds. -/
def Field.low8 (x : Field UInt32) : Field UInt32 :=
  ⟨x.value &&& 0x000000ff, Span.of x.span.lower 1⟩

/-- `flags & 0xffffff00`, which the other three bytes hold. -/
def Field.high24 (x : Field UInt32) : Field UInt32 :=
  ⟨x.value &&& 0xffffff00, Span.of (x.span.lower + 1) 3⟩

/-! ## Section headers -/

/-- `SectionHeader`. -/
structure SectionHeader where
  segment : Field String
  section_ : Field String
  addr : Field UInt64
  size : Field UInt64
  offset : Field UInt32
  align : Field UInt32
  fileOffsetOfRelocationEntries : Field UInt32
  numberOfRelocatioEntries : Field UInt32
  sectionType : Field SectionType
  sectionAttributes : Field SectionAttributes
  reserved1 : Field UInt32
  reserved2 : Field UInt32
  /-- exists only for 64 bit -/
  reserved3 : Option (Field UInt32)
  is64Bit : Bool
  deriving DecidableEq

/-- `SectionHeader(is64Bit:data:)`. -/
def SectionHeader.init (is64Bit : Bool) (data : Data) : Run SectionHeader := do
  let s := DataShifter.init data
  let (sectionName, s) ← s.shiftName
  let (segmentName, s) ← s.shiftName
  let (addr, s) ← s.shiftAddress is64Bit
  let (size, s) ← s.shiftAddress is64Bit
  let (offset, s) ← s.shiftUInt32
  let (align, s) ← s.shiftUInt32
  let (reloff, s) ← s.shiftUInt32
  let (nreloc, s) ← s.shiftUInt32
  let (flags, s) ← s.shiftUInt32
  let sectionType ← unwrap (SectionType.ofRaw? flags.low8.value)
  let (reserved1, s) ← s.shiftUInt32
  let (reserved2, s) ← s.shiftUInt32
  let reserved3 ← if is64Bit then (do let (r, _) ← s.shiftUInt32; return some r) else pure none
  return {
    segment := segmentName
    section_ := sectionName
    addr := addr
    size := size
    offset := offset
    align := align
    fileOffsetOfRelocationEntries := reloff
    numberOfRelocatioEntries := nreloc
    sectionType := flags.low8.map fun _ => sectionType
    sectionAttributes := flags.high24.map SectionAttributes.mk
    reserved1 := reserved1
    reserved2 := reserved2
    reserved3 := reserved3
    is64Bit := is64Bit }

/-- `is64Bit ? .uint64 : .uint32`. -/
def addressType (is64Bit : Bool) : TranslationDataType := if is64Bit then .uint64 else .uint32

/-- `getTranslations()`. -/
def SectionHeader.getTranslations (h : SectionHeader) : List GeneralTranslation :=
  let width := DataShifter.addressSize h.is64Bit
  let type := h.sectionType.value
  [h.section_.translation "Section Name" h.section_.value 16 .utf8String,
   h.segment.translation "Segment Name" h.segment.value 16 .utf8String,
   h.addr.translation "Virtual Address" (hex h.addr.value.toNat) width (addressType h.is64Bit),
   h.size.translation "Section Size" (hex h.size.value.toNat) width (addressType h.is64Bit),
   h.offset.translation "File Offset" (hex h.offset.value.toNat) 4 .uint32,
   h.align.translation "Align" (decimal h.align.value.toNat) 4 .uint32,
   h.fileOffsetOfRelocationEntries.translation "Reloc Entry Offset"
     (hex h.fileOffsetOfRelocationEntries.value.toNat) 4 .uint32,
   h.numberOfRelocatioEntries.translation "Reloc Entry Number"
     (decimal h.numberOfRelocatioEntries.value.toNat) 4 .uint32,
   h.sectionType.translation "Section Type" type.name 1 .numberEnum,
   h.sectionAttributes.translation "Section Attributes"
     (joined "\n" h.sectionAttributes.value.descriptions) 3 .flags,
   h.reserved1.translation
     (if type.hasIndirectSymbolTableEntries then "Indirect Symbol Table Index" else "reserved1")
     (hex h.reserved1.value.toNat) 4 .uint32,
   h.reserved2.translation (if type = .S_SYMBOL_STUBS then "Stub Size" else "reserved2")
     (hex h.reserved2.value.toNat) 4 .uint32] ++
  (h.reserved3.toList.map fun r => r.translation "reserved3" (hex r.value.toNat) 4 .uint32)

/-! ## Segments -/

/-- `VMProtection(raw:).humanReadable`. -/
def vmProtection (raw : UInt32) : String :=
  let readable := raw &&& 0x01 != 0
  let writable := raw &&& 0x02 != 0
  let executable := raw &&& 0x04 != 0
  if readable && writable && executable then "VM_PROT_ALL"
  else if readable && writable then "VM_PROT_DEFAULT"
  else
    let ret := (if readable then ["VM_PROT_READ"] else []) ++
      (if writable then ["VM_PROT_WRITE"] else []) ++
      (if executable then ["VM_PROT_EXECUTE"] else [])
    joined "," (if ret.isEmpty then ["VM_PROT_NONE"] else ret)

/-- `LCSegment`. -/
structure LCSegment where
  is64Bit : Bool
  segmentName : Field String
  vmaddr : Field UInt64
  vmsize : Field UInt64
  segmentFileOff : Field UInt64
  segmentSize : Field UInt64
  maxprot : Field UInt32
  initprot : Field UInt32
  numberOfSections : Field UInt32
  flags : Field UInt32
  sectionHeaders : List SectionHeader
  deriving DecidableEq

/-- The size of a section header: 68 bytes, or 80 for 64-bit. -/
def sectionHeaderSize (is64Bit : Bool) : Nat := if is64Bit then 80 else 68

theorem sectionHeaderSize_pos (is64Bit : Bool) : 0 < sectionHeaderSize is64Bit := by
  cases is64Bit <;> decide

/-- One turn of the section loop. -/
def nextSectionHeader (is64Bit : Bool) (s : DataShifter) : Run (SectionHeader × DataShifter) := do
  let (d, s) ← s.shift (.rawNumber (sectionHeaderSize is64Bit))
  let header ← SectionHeader.init is64Bit d
  return (header, s)

theorem nextSectionHeader_left {is64Bit : Bool} {s t : DataShifter} {h : SectionHeader}
    (hn : nextSectionHeader is64Bit s = .ok (h, t)) : t.left < s.left := by
  unfold nextSectionHeader at hn
  simp only [bind_eq_ok] at hn
  obtain ⟨⟨d, u⟩, hs, header, -, he⟩ := hn
  cases he
  exact DataShifter.shift_left_lt hs

/-- `while dataShifter.shiftable { sectionHeaders.append(…) }`. -/
def sectionHeaderLoop (is64Bit : Bool) : Loop Trap DataShifter SectionHeader where
  more := DataShifter.shiftable
  next := nextSectionHeader is64Bit
  rank := DataShifter.left
  lowers _ hn := nextSectionHeader_left hn

/-- `LCSegment(with:data:)`. -/
def LCSegment.init (type : LoadCommandType) (data : Data) : Run LCSegment := do
  let is64Bit := type == .segment64
  let s := (DataShifter.init data).skip .quadWords
  let (segmentName, s) ← s.shiftName
  let (vmaddr, s) ← s.shiftAddress is64Bit
  let (vmsize, s) ← s.shiftAddress is64Bit
  let (segmentFileOff, s) ← s.shiftAddress is64Bit
  let (segmentSize, s) ← s.shiftAddress is64Bit
  let (maxprot, s) ← s.shiftUInt32
  let (initprot, s) ← s.shiftUInt32
  let (numberOfSections, s) ← s.shiftUInt32
  let (flags, s) ← s.shiftUInt32
  let (sectionHeaders, _) ← (sectionHeaderLoop is64Bit).run s
  guardElse (sectionHeaders.length == numberOfSections.value.toNat)
  return {
    is64Bit := is64Bit
    segmentName := segmentName
    vmaddr := vmaddr
    vmsize := vmsize
    segmentFileOff := segmentFileOff
    segmentSize := segmentSize
    maxprot := maxprot
    initprot := initprot
    numberOfSections := numberOfSections
    flags := flags
    sectionHeaders := sectionHeaders }

/-- `LCSegment.flags(for:)`. -/
def segmentFlags (flags : UInt32) : String :=
  joined "\n" (([("SG_HIGHVM", 0x1), ("SG_FVMLIB", 0x2), ("SG_NORELOC", 0x4),
    ("SG_PROTECTED_VERSION_1", 0x8), ("SG_READ_ONLY", 0x10)].filter
      fun m : String × UInt32 => flags &&& m.2 != 0).map Prod.fst)

/-- The part of `LCSegment.commandTranslations` before the sections. -/
def LCSegment.headTranslations (c : LCSegment) : List GeneralTranslation :=
  let width := DataShifter.addressSize c.is64Bit
  let type := addressType c.is64Bit
  [c.segmentName.translation "Segment Name" c.segmentName.value 16 .utf8String,
   c.vmaddr.translation "Virtual Memory Start Address" (hex c.vmaddr.value.toNat) width type,
   c.vmsize.translation "Virtual Memory Size" (hex c.vmsize.value.toNat) width type,
   c.segmentFileOff.translation "File Offset" (hex c.segmentFileOff.value.toNat) width type,
   c.segmentSize.translation "Size to Map into Memory" (hex c.segmentSize.value.toNat) width type,
   c.maxprot.translation "Maximum VM Protection" (vmProtection c.maxprot.value) 4 .flags,
   c.initprot.translation "Initial VM Protection" (vmProtection c.initprot.value) 4 .flags,
   c.numberOfSections.translation "Number of Sections" (decimal c.numberOfSections.value.toNat) 4
     .uint32,
   c.flags.translation "Flags" (segmentFlags c.flags.value) 4 .flags]

/-- `LCSegment.commandTranslations`. -/
def LCSegment.commandTranslations (c : LCSegment) : List GeneralTranslation :=
  c.headTranslations ++ c.sectionHeaders.flatMap SectionHeader.getTranslations

/-! ## What the initializers compute -/

theorem DataShifter.shiftName_bind {β : Type} {d : Data} {k : Nat} {b : β}
    {f : Field String × DataShifter → Run β} :
    ((cursor d k).shiftName >>= f) = .ok b ↔ k + 16 ≤ d.count ∧
      ∃ name, (d.window k 16).utf8String = some name ∧
        f (⟨spaceRemoved name, Span.of (d.startIndex + k) 16⟩, cursor d (k + 16)) = .ok b := by
  unfold shiftName
  rw [bind_assoc, shift_bind (n := 16) rfl]
  constructor
  · rintro ⟨-, hle, h⟩
    simp only [bind_assoc, unwrap_bind, pure_eq_ok, ok_bind] at h
    obtain ⟨name, hname, h⟩ := h
    rw [Data.window_span d hle] at h
    exact ⟨hle, name, hname, h⟩
  · rintro ⟨hle, name, hname, h⟩
    refine ⟨by decide, hle, ?_⟩
    simp only [hname, unwrap, ok_bind, pure_eq_ok, Data.window_span d hle]
    exact h

/-- The section header at the start of `d`, once its two names and its type are decoded. -/
def SectionHeader.layout (is64Bit : Bool) (d : Data) (name segment : String)
    (type : SectionType) : SectionHeader :=
  let a := DataShifter.addressSize is64Bit
  { segment := ⟨spaceRemoved segment, Span.of (d.startIndex + 16) 16⟩
    section_ := ⟨spaceRemoved name, Span.of (d.startIndex + 0) 16⟩
    addr := DataShifter.addressAt is64Bit d 32
    size := DataShifter.addressAt is64Bit d (32 + a)
    offset := d.uint32At (32 + 2 * a)
    align := d.uint32At (36 + 2 * a)
    fileOffsetOfRelocationEntries := d.uint32At (40 + 2 * a)
    numberOfRelocatioEntries := d.uint32At (44 + 2 * a)
    sectionType := (d.uint32At (48 + 2 * a)).low8.map fun _ => type
    sectionAttributes := (d.uint32At (48 + 2 * a)).high24.map SectionAttributes.mk
    reserved1 := d.uint32At (52 + 2 * a)
    reserved2 := d.uint32At (56 + 2 * a)
    reserved3 := if is64Bit then some (d.uint32At (60 + 2 * a)) else none
    is64Bit := is64Bit }

/-- The parts of a section header whose decoding can fail. -/
structure SectionHeader.Decodes (is64Bit : Bool) (d : Data) (name segment : String)
    (type : SectionType) : Prop where
  name_eq : (d.window 0 16).utf8String = some name
  segment_eq : (d.window 16 16).utf8String = some segment
  type_eq : SectionType.ofRaw?
    (d.uint32At (48 + 2 * DataShifter.addressSize is64Bit)).low8.value = some type

/-- **`SectionHeader.init`**: it returns exactly on enough data with decodable names and type. -/
theorem sectionHeader_init_eq_ok {is64Bit : Bool} {d : Data} {h : SectionHeader} :
    SectionHeader.init is64Bit d = .ok h ↔ sectionHeaderSize is64Bit ≤ d.count ∧
      ∃ name segment type, SectionHeader.Decodes is64Bit d name segment type ∧
        h = SectionHeader.layout is64Bit d name segment type := by
  unfold SectionHeader.init
  cases is64Bit with
  | false =>
    simp (disch := decide) only [init_eq, shiftName_bind, shiftAddress_bind, shiftUInt32_bind,
      unwrap_bind, Bool.false_eq_true, if_false, pure_eq_ok, ok_bind, Except.ok.injEq,
      addressSize, Nat.reduceAdd, le_absorb]
    constructor
    · rintro ⟨_, name, hname, _, segment, hsegment, _, type, htype, hle, rfl⟩
      exact ⟨hle, name, segment, type, ⟨hname, hsegment, htype⟩, rfl⟩
    · rintro ⟨hle, name, segment, type, hd, rfl⟩
      have hle : 68 ≤ d.count := hle
      exact ⟨by omega, name, hd.name_eq, by omega, segment, hd.segment_eq, by omega, type,
        hd.type_eq, hle, rfl⟩
  | true =>
    simp (disch := decide) only [init_eq, shiftName_bind, shiftAddress_bind, shiftUInt32_bind,
      unwrap_bind, if_true, bind_assoc, pure_eq_ok, ok_bind, Except.ok.injEq, addressSize,
      Nat.reduceAdd, le_absorb]
    constructor
    · rintro ⟨_, name, hname, _, segment, hsegment, _, type, htype, hle, rfl⟩
      exact ⟨hle, name, segment, type, ⟨hname, hsegment, htype⟩, rfl⟩
    · rintro ⟨hle, name, segment, type, hd, rfl⟩
      have hle : 80 ≤ d.count := hle
      exact ⟨by omega, name, hd.name_eq, by omega, segment, hd.segment_eq, by omega, type,
        hd.type_eq, hle, rfl⟩

/-- The translations of a section header show its bytes in order. -/
theorem sectionHeader_shown {is64Bit : Bool} {d : Data} {h : SectionHeader}
    (hi : SectionHeader.init is64Bit d = .ok h) :
    Shown d.startIndex (d.startIndex + sectionHeaderSize is64Bit) h.getTranslations := by
  obtain ⟨_, name, segment, type, _, rfl⟩ := sectionHeader_init_eq_ok.mp hi
  cases is64Bit <;>
    simp [SectionHeader.getTranslations, SectionHeader.layout, Shown, sectionHeaderSize,
      addressSize, Field.low8, Field.high24, Nat.add_assoc]

theorem nextSectionHeader_eq_ok {is64Bit : Bool} {d : Data} {k : Nat}
    {r : SectionHeader × DataShifter} :
    nextSectionHeader is64Bit (cursor d k) = .ok r ↔ k + sectionHeaderSize is64Bit ≤ d.count ∧
      ∃ h, SectionHeader.init is64Bit (d.window k (sectionHeaderSize is64Bit)) = .ok h ∧
        r = (h, cursor d (k + sectionHeaderSize is64Bit)) := by
  unfold nextSectionHeader
  rw [shift_rawNumber_bind]
  simp only [bind_eq_ok, pure_eq_ok, Except.ok.injEq]
  constructor
  · rintro ⟨-, hle, h, hi, rfl⟩
    exact ⟨hle, h, hi, rfl⟩
  · rintro ⟨hle, h, hi, rfl⟩
    exact ⟨sectionHeaderSize_pos is64Bit, hle, h, hi, rfl⟩

/-- The section headers returned by the loop show the bytes it passed. -/
theorem sectionHeaders_shown {is64Bit : Bool} {d : Data} {k : Nat} {hs : List SectionHeader}
    {u : DataShifter} (hk : k ≤ d.count)
    (h : (sectionHeaderLoop is64Bit).Turns (cursor d k) hs u) (hu : u.shiftable = false) :
    Shown (d.startIndex + k) (d.startIndex + d.count)
      (hs.flatMap SectionHeader.getTranslations) := by
  have hturns := shown_turns (I := fun s => ∃ j, j ≤ d.count ∧ s = cursor d j)
    (p := fun s => d.startIndex + s.shifted.toNat)
    (f := SectionHeader.getTranslations) ?_ h ⟨k, hk, rfl⟩
  · obtain ⟨⟨e, he, rfl⟩, hshown⟩ := hturns
    rw [shiftable_cursor, decide_eq_false_iff_not] at hu
    have hend : e = d.count := by omega
    exact hend ▸ hshown
  · rintro _ _ header ⟨j, _, rfl⟩ _ hn
    obtain ⟨hle, _, hi, hr⟩ := nextSectionHeader_eq_ok.mp hn
    cases hr
    have hheader := sectionHeader_shown hi
    rw [Data.window_startIndex, Nat.add_assoc] at hheader
    exact ⟨⟨_, hle, rfl⟩, hheader⟩

/-- The fixed part of a segment command: 56 bytes, or 72 for 64-bit. -/
def segmentHeadSize (is64Bit : Bool) : Nat := if is64Bit then 72 else 56

/-- The segment command at the start of `d` with the decoded name and sections. -/
def LCSegment.layout (is64Bit : Bool) (d : Data) (name : String)
    (sectionHeaders : List SectionHeader) : LCSegment :=
  let a := addressSize is64Bit
  { is64Bit := is64Bit
    segmentName := ⟨spaceRemoved name, Span.of (d.startIndex + 8) 16⟩
    vmaddr := addressAt is64Bit d 24
    vmsize := addressAt is64Bit d (24 + a)
    segmentFileOff := addressAt is64Bit d (24 + 2 * a)
    segmentSize := addressAt is64Bit d (24 + 3 * a)
    maxprot := d.uint32At (24 + 4 * a)
    initprot := d.uint32At (28 + 4 * a)
    numberOfSections := d.uint32At (32 + 4 * a)
    flags := d.uint32At (36 + 4 * a)
    sectionHeaders := sectionHeaders }

/-- **`LCSegment.init`**: a decodable name, and the declared number of section headers up to the end
of the data. -/
theorem segment_init_eq_ok {type : LoadCommandType} {d : Data} {c : LCSegment} :
    LCSegment.init type d = .ok c ↔ segmentHeadSize (type == .segment64) ≤ d.count ∧
      ∃ name headers u, (d.window 8 16).utf8String = some name ∧
        (sectionHeaderLoop (type == .segment64)).Turns
          (cursor d (segmentHeadSize (type == .segment64))) headers u ∧
        u.shiftable = false ∧ c = LCSegment.layout (type == .segment64) d name headers ∧
        headers.length = c.numberOfSections.value.toNat := by
  unfold LCSegment.init
  cases (type == LoadCommandType.segment64)
  all_goals
    simp (disch := decide) only [init_eq, skip_quadWords, Nat.zero_add, shiftName_bind,
      shiftAddress_bind, shiftUInt32_bind, addressSize, Bool.false_eq_true, reduceIte,
      Nat.reduceAdd, le_absorb]
    constructor
    · rintro ⟨_, name, hname, hle, h⟩
      simp only [bind_eq_ok, guardElse_eq_ok, pure_eq_ok, Except.ok.injEq, beq_iff_eq] at h
      obtain ⟨⟨headers, u⟩, hrun, _, hlen, rfl⟩ := h
      obtain ⟨hturns, hend⟩ := Loop.run_eq_ok_iff.mp hrun
      exact ⟨hle, name, headers, u, hname, hturns, hend, rfl, hlen⟩
    · rintro ⟨hle, name, headers, u, hname, hturns, hend, rfl, hlen⟩
      refine ⟨Nat.le_trans (by decide) hle, name, hname, hle, ?_⟩
      simp only [bind_eq_ok, guardElse_eq_ok, pure_eq_ok, Except.ok.injEq, beq_iff_eq]
      exact ⟨(headers, u), Loop.run_eq_ok_iff.mpr ⟨hturns, hend⟩, (), hlen, rfl⟩

theorem segment_head_shown {is64Bit : Bool} {d : Data} {name : String}
    {headers : List SectionHeader} :
    Shown (d.startIndex + 8) (d.startIndex + segmentHeadSize is64Bit)
      (LCSegment.layout is64Bit d name headers).headTranslations := by
  cases is64Bit <;>
    simp [LCSegment.headTranslations, LCSegment.layout, Shown, segmentHeadSize, addressSize,
      Nat.add_assoc]

/-- The translations of a segment command show everything after the type and the size. -/
theorem segment_shown {type : LoadCommandType} {d : Data} {c : LCSegment}
    (h : LCSegment.init type d = .ok c) :
    Shown (d.startIndex + 8) (d.startIndex + d.count) c.commandTranslations := by
  obtain ⟨hle, name, headers, u, _, hturns, hend, rfl, _⟩ := segment_init_eq_ok.mp h
  exact segment_head_shown.append (sectionHeaders_shown hle hturns hend)

end Mocha
