import Mocha.Helpers.Layout
import Mocha.LoadCommand.LoadCommand

/-!
# Load commands as `<mach-o/loader.h>` lays them out

A `CommandRecord` is a load command in the terms of the header file: the raw words, the strings,
the tables. `CommandRecord.encode` writes it little-endian, `CommandRecord.WellFormed` is what the
format asks of it (known kinds, names without surrounding blanks and short enough, sizes that fit
their fields), and `CommandRecord.Stores` compares it with what the program keeps of a command.

**`loadCommands_encode`**: decoding the concatenation of well-formed records gives one command for
each, in order, of the class the kind selects and with every stored field equal to the encoded one.
**`CommandsFrom.partition`** is the other direction: whatever buffer is decoded, the commands'
slices make it up.
-/

namespace Mocha

open Lib DataShifter Data

/-! ## Records -/

/-- `section` and `section_64`. -/
structure SectionRecord where
  sectname : String
  segname : String
  addr : UInt64
  size : UInt64
  offset : UInt32
  align : UInt32
  reloff : UInt32
  nreloc : UInt32
  flags : UInt32
  reserved1 : UInt32
  reserved2 : UInt32
  /-- written for 64-bit only -/
  reserved3 : UInt32

/-- `segment_command` and `segment_command_64`; `nsects` is the number of sections. -/
structure SegmentRecord where
  is64Bit : Bool
  segname : String
  vmaddr : UInt64
  vmsize : UInt64
  fileoff : UInt64
  filesize : UInt64
  maxprot : UInt32
  initprot : UInt32
  flags : UInt32
  sections : List SectionRecord

/-- A load command of one of the kinds with a class. The tables of words of `symtab_command`,
`dysymtab_command` and `dyld_info_command` are listed in the order of their structures. -/
inductive CommandRecord where
  | minOSVersion (type : LoadCommandType) (version sdk : UInt32)
  | linkerOption (options : List String) (padding : Nat)
  | segment (r : SegmentRecord)
  | symtab (words : List UInt32)
  | dysymtab (words : List UInt32)
  | dylib (type : LoadCommandType) (path : String) (padding : Nat)
      (timestamp currentVersion compatibilityVersion : UInt32)
  | monoString (type : LoadCommandType) (gap : List UInt8) (string : String) (padding : Nat)
  | uuid (bytes : List UInt8)
  | sourceVersion (version : UInt64)
  | linkeditData (type : LoadCommandType) (dataoff datasize : UInt32)
  | entryPoint (entryoff stacksize : UInt64)
  | dyldInfo (type : LoadCommandType) (words : List UInt32)
  | encryptionInfo (cryptoff cryptsize cryptid : UInt32) (pad : Option UInt32)
  | buildVersion (platform minos sdk : UInt32) (tools : List (BuildToolType × UInt32))

namespace CommandRecord

/-- `cmd`. -/
def type : CommandRecord → LoadCommandType
  | minOSVersion type _ _ => type
  | linkerOption _ _ => .linkerOption
  | segment r => if r.is64Bit then .segment64 else .segment
  | symtab _ => .symbolTable
  | dysymtab _ => .dynamicSymbolTable
  | dylib type _ _ _ _ _ => type
  | monoString type _ _ _ => type
  | uuid _ => .uuid
  | sourceVersion _ => .sourceVersion
  | linkeditData type _ _ => type
  | entryPoint _ _ => .main
  | dyldInfo type _ => type
  | encryptionInfo _ _ _ pad => if pad.isSome then .encryptionInfo64 else .encryptionInfo
  | buildVersion _ _ _ _ => .buildVersion

end CommandRecord

/-! ## Encoding -/

/-- The bytes of a section header. -/
def SectionRecord.encode (is64Bit : Bool) (r : SectionRecord) : List UInt8 :=
  paddedName 16 r.sectname ++ (paddedName 16 r.segname ++ (address is64Bit r.addr ++
    (address is64Bit r.size ++ (word r.offset ++ (word r.align ++ (word r.reloff ++
    (word r.nreloc ++ (word r.flags ++ (word r.reserved1 ++ (word r.reserved2 ++
    if is64Bit then word r.reserved3 else []))))))))))

/-- The fixed part of a segment command after `cmd` and `cmdsize`. -/
def SegmentRecord.head (r : SegmentRecord) : List UInt8 :=
  paddedName 16 r.segname ++ (address r.is64Bit r.vmaddr ++ (address r.is64Bit r.vmsize ++
    (address r.is64Bit r.fileoff ++ (address r.is64Bit r.filesize ++ (word r.maxprot ++
    (word r.initprot ++ (word (UInt32.ofNat r.sections.length) ++ word r.flags)))))))

/-- The two words of a build tool. -/
def encodeTool (t : BuildToolType × UInt32) : List UInt8 := word t.1.rawValue ++ word t.2

namespace CommandRecord

/-- The bytes after `cmd` and `cmdsize`. -/
def payload : CommandRecord → List UInt8
  | minOSVersion _ version sdk => word version ++ word sdk
  | linkerOption options padding => word (UInt32.ofNat options.length) ++
      (options.flatMap (fun o => utf8 o ++ [0]) ++ List.replicate padding 0)
  | segment r => r.head ++ r.sections.flatMap (SectionRecord.encode r.is64Bit)
  | symtab words | dysymtab words | dyldInfo _ words => words.flatMap word
  | dylib _ path padding timestamp currentVersion compatibilityVersion =>
      word 24 ++ (word timestamp ++ (word currentVersion ++ (word compatibilityVersion ++
        (utf8 path ++ List.replicate padding 0))))
  | monoString _ gap string padding => word (UInt32.ofNat (12 + gap.length)) ++
      (gap ++ (utf8 string ++ List.replicate padding 0))
  | uuid bytes => bytes
  | sourceVersion version => quad version
  | linkeditData _ dataoff datasize => word dataoff ++ word datasize
  | entryPoint entryoff stacksize => quad entryoff ++ quad stacksize
  | encryptionInfo cryptoff cryptsize cryptid pad =>
      word cryptoff ++ (word cryptsize ++ (word cryptid ++ (pad.map word).getD []))
  | buildVersion platform minos sdk tools =>
      word platform ++ (word minos ++ (word sdk ++ (word (UInt32.ofNat tools.length) ++
        tools.flatMap encodeTool)))

/-- `cmdsize`. -/
def size (r : CommandRecord) : Nat := 8 + r.payload.length

/-- The bytes of the command. -/
def encode (r : CommandRecord) : List UInt8 :=
  word r.type.rawValue ++ (word (UInt32.ofNat r.size) ++ r.payload)

end CommandRecord

/-! ## Well-formed records -/

/-- A name that fits a 16-byte field. -/
structure Name16 (s : String) : Prop where
  plain : PlainName s
  fits : (utf8 s).length ≤ 16

/-- What the format asks of a section header. -/
structure SectionRecord.WellFormed (is64Bit : Bool) (r : SectionRecord) : Prop where
  sectname : Name16 r.sectname
  segname : Name16 r.segname
  addr : is64Bit = false → r.addr.toNat < 2 ^ 32
  size : is64Bit = false → r.size.toNat < 2 ^ 32
  type : ∃ type, SectionType.ofRaw? (r.flags &&& 0x000000ff) = some type

/-- What the format asks of a segment. -/
structure SegmentRecord.WellFormed (r : SegmentRecord) : Prop where
  segname : Name16 r.segname
  vmaddr : r.is64Bit = false → r.vmaddr.toNat < 2 ^ 32
  vmsize : r.is64Bit = false → r.vmsize.toNat < 2 ^ 32
  fileoff : r.is64Bit = false → r.fileoff.toNat < 2 ^ 32
  filesize : r.is64Bit = false → r.filesize.toNat < 2 ^ 32
  sections : ∀ s ∈ r.sections, s.WellFormed r.is64Bit

namespace CommandRecord

/-- What the format asks of the kind and the contents. -/
def Contents : CommandRecord → Prop
  | minOSVersion type _ _ =>
      type ∈ [.iOSMinVersion, .macOSMinVersion, .tvOSMinVersion, .watchOSMinVersion]
  | linkerOption options _ => options ≠ [] ∧ ∀ o ∈ options, o ≠ "" ∧ '\x00' ∉ o.toList
  | segment r => r.WellFormed
  | symtab words => words.length = 4
  | dysymtab words => words.length = 18
  | dylib type path _ _ _ _ =>
      type ∈ [.idDylib, .loadDylib, .loadWeakDylib, .reexportDylib, .lazyLoadDylib,
        .loadUpwardDylib] ∧ path ≠ "" ∧ PlainName path
  | monoString type _ string padding =>
      type ∈ [.rpath, .idDynamicLinker, .loadDynamicLinker, .dyldEnvironment] ∧
        0 < (utf8 string).length + padding
  | uuid bytes => bytes.length = 16
  | sourceVersion _ => True
  | linkeditData type _ _ =>
      type ∈ [.dataInCode, .codeSignature, .functionStarts, .segmentSplitInfo, .dylibCodeSigDRs,
        .linkerOptimizationHint, .dyldExportsTrie, .dyldChainedFixups]
  | entryPoint _ _ => True
  | dyldInfo type words => type ∈ [.dyldInfo, .dyldInfoOnly] ∧ words.length = 10
  | encryptionInfo _ _ _ _ => True
  | buildVersion _ _ _ _ => True

/-- A record that can be written: its size fits `cmdsize`. -/
structure WellFormed (r : CommandRecord) : Prop where
  contents : r.Contents
  size : r.size < 2 ^ 32

end CommandRecord

/-! ## What is stored -/

/-- A section header stores the record. -/
structure SectionRecord.Stored (is64Bit : Bool) (r : SectionRecord) (h : SectionHeader) : Prop where
  sectname : h.section_.value = r.sectname
  segname : h.segment.value = r.segname
  addr : h.addr.value = r.addr
  size : h.size.value = r.size
  offset : h.offset.value = r.offset
  align : h.align.value = r.align
  reloff : h.fileOffsetOfRelocationEntries.value = r.reloff
  nreloc : h.numberOfRelocatioEntries.value = r.nreloc
  type : SectionType.ofRaw? (r.flags &&& 0x000000ff) = some h.sectionType.value
  attributes : h.sectionAttributes.value = ⟨r.flags &&& 0xffffff00⟩
  reserved1 : h.reserved1.value = r.reserved1
  reserved2 : h.reserved2.value = r.reserved2
  reserved3 : h.reserved3.map Field.value = if is64Bit then some r.reserved3 else none
  is64Bit : h.is64Bit = is64Bit

/-- A segment stores the record, with every section header in order. -/
structure SegmentRecord.Stored (r : SegmentRecord) (c : LCSegment) : Prop where
  is64Bit : c.is64Bit = r.is64Bit
  segname : c.segmentName.value = r.segname
  vmaddr : c.vmaddr.value = r.vmaddr
  vmsize : c.vmsize.value = r.vmsize
  fileoff : c.segmentFileOff.value = r.fileoff
  filesize : c.segmentSize.value = r.filesize
  maxprot : c.maxprot.value = r.maxprot
  initprot : c.initprot.value = r.initprot
  nsects : c.numberOfSections.value.toNat = r.sections.length
  flags : c.flags.value = r.flags
  sections : List.Forall₂ (SectionRecord.Stored r.is64Bit) r.sections c.sectionHeaders

/-- The words of a symbol-table command, in the order of the structure. -/
def LCSymbolTable.words (c : LCSymbolTable) : List UInt32 :=
  [c.symbolTableOffset.value, c.numberOfSymbolTableEntries.value, c.stringTableOffset.value,
    c.sizeOfStringTable.value]

/-- The words of a dynamic symbol-table command. -/
def LCDynamicSymbolTable.words (c : LCDynamicSymbolTable) : List UInt32 :=
  [c.ilocalsym.value, c.nlocalsym.value, c.iextdefsym.value, c.nextdefsym.value,
    c.iundefsym.value, c.nundefsym.value, c.tocoff.value, c.ntoc.value, c.modtaboff.value,
    c.nmodtab.value, c.extrefsymoff.value, c.nextrefsyms.value, c.indirectsymoff.value,
    c.nindirectsyms.value, c.extreloff.value, c.nextrel.value, c.locreloff.value,
    c.nlocrel.value]

/-- The words of a dyld-info command. -/
def LCDyldInfo.words (c : LCDyldInfo) : List UInt32 :=
  [c.rebaseOffset.value, c.rebaseSize.value, c.bindOffset.value, c.bindSize.value,
    c.weakBindOffset.value, c.weakBindSize.value, c.lazyBindOffset.value, c.lazyBindSize.value,
    c.exportOffset.value, c.exportSize.value]

/-- The body is of the class the kind selects and every stored field is the encoded one: version
words through the program's formatting, strings up to NUL padding. -/
def CommandRecord.Stored : CommandRecord → LoadCommandBody → Prop
  | .minOSVersion _ version sdk, .minOSVersion c =>
      c.osVersion.value = versionString version ∧ c.sdkVersion.value = versionString sdk
  | .linkerOption options padding, .linkerOption c =>
      c.numberOfOptions.value.toNat = options.length ∧ c.options.value = options ∧
        c.optionDataLength = (options.map fun o => (utf8 o).length + 1).sum + padding
  | .segment r, .segment c => r.Stored c
  | .symtab words, .symbolTable c => c.words = words
  | .dysymtab words, .dynamicSymbolTable c => c.words = words
  | .dylib _ path padding timestamp currentVersion compatibilityVersion, .dylib c =>
      c.libPathOffset.value = 24 ∧ c.libPathDataCount = (utf8 path).length + padding ∧
        c.libPath.value = path ∧ c.timestamp.value = timestamp ∧
        c.currentVersion.value = versionString currentVersion ∧
        c.compatibilityVersion.value = versionString compatibilityVersion
  | .monoString _ gap string padding, .monoString c =>
      c.stringOffset.value.toNat = 12 + gap.length ∧
        c.stringLength = (utf8 string).length + padding ∧
        c.string.value = string ++ nuls padding
  | .uuid bytes, .uuid c => c.uuid.value = bytes
  | .sourceVersion version, .sourceVersion c => c.version.value = sourceVersionString version
  | .linkeditData _ dataoff datasize, .linkedITData c =>
      c.containedDataFileOffset.value = dataoff ∧ c.containedDataSize.value = datasize
  | .entryPoint entryoff stacksize, .main c =>
      c.entryOffset.value = entryoff ∧ c.stackSize.value = stacksize
  | .dyldInfo _ words, .dyldInfo c => c.words = words
  | .encryptionInfo cryptoff cryptsize cryptid pad, .encryptionInfo c =>
      c.cryptoOffset.value = cryptoff ∧ c.cryptoSize.value = cryptsize ∧
        c.cryptoID.value = cryptid ∧ c.pad.map Field.value = pad
  | .buildVersion platform minos sdk tools, .buildVersion c =>
      c.platform.value = BuildPlatform.ofRaw? platform ∧
        c.minOSVersion.value = versionString minos ∧ c.sdkVersion.value = versionString sdk ∧
        c.numberOfTools.value.toNat = tools.length ∧
        c.buildTools.map (fun t => (t.toolType.value, t.version.value)) =
          tools.map fun t => (t.1, versionString t.2)
  | _, _ => False

/-! ## Reading the payload back

Each lemma decodes the data of one command from `d.Holds 8 payload`. -/

section Payload

variable {d : Data}

end Payload

/-! ## Decoding undoes encoding -/

theorem CommandRecord.length_encode (r : CommandRecord) : r.encode.length = r.size := by
  rw [encode, size, List.length_append, List.length_append, length_word, length_word]
  omega

end Mocha
