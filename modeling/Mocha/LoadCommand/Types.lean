import Mocha.Models.Translations
import Mocha.Helpers.DataShifter

/-!
# The enumerations of the load commands

`LoadCommandType` (`LoadCommand/LoadCommand.swift`), `SectionType` and `SectionAttribute`
(`SectionHeader.swift`), `BuildToolType` and `BuildPlatform` (`LCBuildVersion.swift`), with their raw
values and names. `init?(rawValue:)` is `ofRaw?`; it undoes `rawValue` (`ofRaw?_rawValue`).
-/

namespace Mocha

/-- `LoadCommandType`. -/
inductive LoadCommandType where
  | segment
  | symbolTable
  | symseg
  | thread
  | unixThread
  | loadFVMLib
  | idFVMLib
  | ident
  | fvmFile
  | prePage
  | dynamicSymbolTable
  | loadDylib
  | idDylib
  | loadDynamicLinker
  | idDynamicLinker
  | preBoundDylib
  | routines
  | subFramework
  | subUmbrella
  | subClient
  | subLibrary
  | twoLevelHints
  | prebindChecksum
  | loadWeakDylib
  | segment64
  | routines64
  | uuid
  | rpath
  | codeSignature
  | segmentSplitInfo
  | reexportDylib
  | lazyLoadDylib
  | encryptionInfo
  | dyldInfo
  | dyldInfoOnly
  | loadUpwardDylib
  | macOSMinVersion
  | iOSMinVersion
  | functionStarts
  | dyldEnvironment
  | main
  | dataInCode
  | sourceVersion
  | dylibCodeSigDRs
  | encryptionInfo64
  | linkerOption
  | linkerOptimizationHint
  | tvOSMinVersion
  | watchOSMinVersion
  | note
  | buildVersion
  | dyldExportsTrie
  | dyldChainedFixups
  | fileSetEntry
  deriving DecidableEq

namespace LoadCommandType

/-- `rawValue`. A case without a value continues from the one before it. -/
def rawValue : LoadCommandType → UInt32
  | .segment => 0x1
  | .symbolTable => 0x2
  | .symseg => 0x3
  | .thread => 0x4
  | .unixThread => 0x5
  | .loadFVMLib => 0x6
  | .idFVMLib => 0x7
  | .ident => 0x8
  | .fvmFile => 0x9
  | .prePage => 0xa
  | .dynamicSymbolTable => 0xb
  | .loadDylib => 0xc
  | .idDylib => 0xd
  | .loadDynamicLinker => 0xe
  | .idDynamicLinker => 0xf
  | .preBoundDylib => 0x10
  | .routines => 0x11
  | .subFramework => 0x12
  | .subUmbrella => 0x13
  | .subClient => 0x14
  | .subLibrary => 0x15
  | .twoLevelHints => 0x16
  | .prebindChecksum => 0x17
  | .loadWeakDylib => 0x80000018
  | .segment64 => 0x19
  | .routines64 => 0x1a
  | .uuid => 0x1b
  | .rpath => 0x8000001c
  | .codeSignature => 0x1d
  | .segmentSplitInfo => 0x1e
  | .reexportDylib => 0x8000001f
  | .lazyLoadDylib => 0x20
  | .encryptionInfo => 0x21
  | .dyldInfo => 0x22
  | .dyldInfoOnly => 0x80000022
  | .loadUpwardDylib => 0x80000023
  | .macOSMinVersion => 0x24
  | .iOSMinVersion => 0x25
  | .functionStarts => 0x26
  | .dyldEnvironment => 0x27
  | .main => 0x80000028
  | .dataInCode => 0x29
  | .sourceVersion => 0x2a
  | .dylibCodeSigDRs => 0x2b
  | .encryptionInfo64 => 0x2c
  | .linkerOption => 0x2d
  | .linkerOptimizationHint => 0x2e
  | .tvOSMinVersion => 0x2f
  | .watchOSMinVersion => 0x30
  | .note => 0x31
  | .buildVersion => 0x32
  | .dyldExportsTrie => 0x80000033
  | .dyldChainedFixups => 0x80000034
  | .fileSetEntry => 0x80000035

/-- `name`. -/
def name : LoadCommandType → String
  | .segment => "LC_SEGMENT"
  | .symbolTable => "LC_SYMTAB"
  | .symseg => "LC_SYMSEG"
  | .thread => "LC_THREAD"
  | .unixThread => "LC_UNIXTHREAD"
  | .loadFVMLib => "LC_LOADFVMLIB"
  | .idFVMLib => "LC_IDFVMLIB"
  | .ident => "LC_IDENT"
  | .fvmFile => "LC_FVMFILE"
  | .prePage => "LC_PREPAGE"
  | .dynamicSymbolTable => "LC_DYSYMTAB"
  | .loadDylib => "LC_LOAD_DYLIB"
  | .idDylib => "LC_ID_DYLIB"
  | .loadDynamicLinker => "LC_LOAD_DYLINKER"
  | .idDynamicLinker => "LC_ID_DYLINKER"
  | .preBoundDylib => "LC_PREBOUND_DYLIB"
  | .routines => "LC_ROUTINES"
  | .subFramework => "LC_SUB_FRAMEWORK"
  | .subUmbrella => "LC_SUB_UMBRELLA"
  | .subClient => "LC_SUB_CLIENT"
  | .subLibrary => "LC_SUB_LIBRARY"
  | .twoLevelHints => "LC_TWOLEVEL_HINTS"
  | .prebindChecksum => "LC_PREBIND_CKSUM"
  | .loadWeakDylib => "LC_LOAD_WEAK_DYLIB"
  | .segment64 => "LC_SEGMENT_64"
  | .routines64 => "LC_ROUTINES_64"
  | .uuid => "LC_UUID"
  | .rpath => "LC_RPATH"
  | .codeSignature => "LC_CODE_SIGNATURE"
  | .segmentSplitInfo => "LC_SEGMENT_SPLIT_INFO"
  | .reexportDylib => "LC_REEXPORT_DYLIB"
  | .lazyLoadDylib => "LC_LAZY_LOAD_DYLIB"
  | .encryptionInfo => "LC_ENCRYPTION_INFO"
  | .dyldInfo => "LC_DYLD_INFO"
  | .dyldInfoOnly => "LC_DYLD_INFO_ONLY"
  | .loadUpwardDylib => "LC_LOAD_UPWARD_DYLIB"
  | .macOSMinVersion => "LC_VERSION_MIN_MACOSX"
  | .iOSMinVersion => "LC_VERSION_MIN_IPHONEOS"
  | .functionStarts => "LC_FUNCTION_STARTS"
  | .dyldEnvironment => "LC_DYLD_ENVIRONMENT"
  | .main => "LC_MAIN"
  | .dataInCode => "LC_DATA_IN_CODE"
  | .sourceVersion => "LC_SOURCE_VERSION"
  | .dylibCodeSigDRs => "LC_DYLIB_CODE_SIGN_DRS"
  | .encryptionInfo64 => "LC_ENCRYPTION_INFO_64"
  | .linkerOption => "LC_LINKER_OPTION"
  | .linkerOptimizationHint => "LC_LINKER_OPTIMIZATION_HINT"
  | .tvOSMinVersion => "LC_VERSION_MIN_TVOS"
  | .watchOSMinVersion => "LC_VERSION_MIN_WATCHOS"
  | .note => "LC_NOTE"
  | .buildVersion => "LC_BUILD_VERSION"
  | .dyldExportsTrie => "LC_DYLD_EXPORTS_TRIE"
  | .dyldChainedFixups => "LC_DYLD_CHAINED_FIXUPS"
  | .fileSetEntry => "LC_FILESET_ENTRY"

/-- Every case, in the source's order. -/
def all : List LoadCommandType :=
  [.segment, .symbolTable, .symseg, .thread, .unixThread, .loadFVMLib, .idFVMLib, .ident,
   .fvmFile, .prePage, .dynamicSymbolTable, .loadDylib, .idDylib, .loadDynamicLinker,
   .idDynamicLinker, .preBoundDylib, .routines, .subFramework, .subUmbrella, .subClient,
   .subLibrary, .twoLevelHints, .prebindChecksum, .loadWeakDylib, .segment64, .routines64, .uuid,
   .rpath, .codeSignature, .segmentSplitInfo, .reexportDylib, .lazyLoadDylib, .encryptionInfo,
   .dyldInfo, .dyldInfoOnly, .loadUpwardDylib, .macOSMinVersion, .iOSMinVersion, .functionStarts,
   .dyldEnvironment, .main, .dataInCode, .sourceVersion, .dylibCodeSigDRs, .encryptionInfo64,
   .linkerOption, .linkerOptimizationHint, .tvOSMinVersion, .watchOSMinVersion, .note,
   .buildVersion, .dyldExportsTrie, .dyldChainedFixups, .fileSetEntry]

/-- `LoadCommandType(rawValue:)`. -/
def ofRaw? (raw : UInt32) : Option LoadCommandType := all.find? fun t => t.rawValue == raw

end LoadCommandType

/-- `SectionType`. -/
inductive SectionType where
  | S_REGULAR
  | S_ZEROFILL
  | S_CSTRING_LITERALS
  | S_4BYTE_LITERALS
  | S_8BYTE_LITERALS
  | S_LITERAL_POINTERS
  | S_NON_LAZY_SYMBOL_POINTERS
  | S_LAZY_SYMBOL_POINTERS
  | S_SYMBOL_STUBS
  | S_MOD_INIT_FUNC_POINTERS
  | S_MOD_TERM_FUNC_POINTERS
  | S_COALESCED
  | S_GB_ZEROFILL
  | S_INTERPOSING
  | S_16BYTE_LITERALS
  | S_DTRACE_DOF
  | S_LAZY_DYLIB_SYMBOL_POINTERS
  | S_THREAD_LOCAL_REGULAR
  | S_THREAD_LOCAL_ZEROFILL
  | S_THREAD_LOCAL_VARIABLES
  | S_THREAD_LOCAL_VARIABLE_POINTERS
  | S_THREAD_LOCAL_INIT_FUNCTION_POINTERS
  | S_INIT_FUNC_OFFSETS
  deriving DecidableEq

namespace SectionType

/-- `rawValue`. -/
def rawValue : SectionType → UInt32
  | .S_REGULAR => 0
  | .S_ZEROFILL => 1
  | .S_CSTRING_LITERALS => 2
  | .S_4BYTE_LITERALS => 3
  | .S_8BYTE_LITERALS => 4
  | .S_LITERAL_POINTERS => 5
  | .S_NON_LAZY_SYMBOL_POINTERS => 6
  | .S_LAZY_SYMBOL_POINTERS => 7
  | .S_SYMBOL_STUBS => 8
  | .S_MOD_INIT_FUNC_POINTERS => 9
  | .S_MOD_TERM_FUNC_POINTERS => 10
  | .S_COALESCED => 11
  | .S_GB_ZEROFILL => 12
  | .S_INTERPOSING => 13
  | .S_16BYTE_LITERALS => 14
  | .S_DTRACE_DOF => 15
  | .S_LAZY_DYLIB_SYMBOL_POINTERS => 16
  | .S_THREAD_LOCAL_REGULAR => 17
  | .S_THREAD_LOCAL_ZEROFILL => 18
  | .S_THREAD_LOCAL_VARIABLES => 19
  | .S_THREAD_LOCAL_VARIABLE_POINTERS => 20
  | .S_THREAD_LOCAL_INIT_FUNCTION_POINTERS => 21
  | .S_INIT_FUNC_OFFSETS => 22

/-- `"\(sectionType)"`: the case's name. -/
def name : SectionType → String
  | .S_REGULAR => "S_REGULAR"
  | .S_ZEROFILL => "S_ZEROFILL"
  | .S_CSTRING_LITERALS => "S_CSTRING_LITERALS"
  | .S_4BYTE_LITERALS => "S_4BYTE_LITERALS"
  | .S_8BYTE_LITERALS => "S_8BYTE_LITERALS"
  | .S_LITERAL_POINTERS => "S_LITERAL_POINTERS"
  | .S_NON_LAZY_SYMBOL_POINTERS => "S_NON_LAZY_SYMBOL_POINTERS"
  | .S_LAZY_SYMBOL_POINTERS => "S_LAZY_SYMBOL_POINTERS"
  | .S_SYMBOL_STUBS => "S_SYMBOL_STUBS"
  | .S_MOD_INIT_FUNC_POINTERS => "S_MOD_INIT_FUNC_POINTERS"
  | .S_MOD_TERM_FUNC_POINTERS => "S_MOD_TERM_FUNC_POINTERS"
  | .S_COALESCED => "S_COALESCED"
  | .S_GB_ZEROFILL => "S_GB_ZEROFILL"
  | .S_INTERPOSING => "S_INTERPOSING"
  | .S_16BYTE_LITERALS => "S_16BYTE_LITERALS"
  | .S_DTRACE_DOF => "S_DTRACE_DOF"
  | .S_LAZY_DYLIB_SYMBOL_POINTERS => "S_LAZY_DYLIB_SYMBOL_POINTERS"
  | .S_THREAD_LOCAL_REGULAR => "S_THREAD_LOCAL_REGULAR"
  | .S_THREAD_LOCAL_ZEROFILL => "S_THREAD_LOCAL_ZEROFILL"
  | .S_THREAD_LOCAL_VARIABLES => "S_THREAD_LOCAL_VARIABLES"
  | .S_THREAD_LOCAL_VARIABLE_POINTERS => "S_THREAD_LOCAL_VARIABLE_POINTERS"
  | .S_THREAD_LOCAL_INIT_FUNCTION_POINTERS => "S_THREAD_LOCAL_INIT_FUNCTION_POINTERS"
  | .S_INIT_FUNC_OFFSETS => "S_INIT_FUNC_OFFSETS"

/-- `SectionType(rawValue:)`. -/
def ofRaw? (raw : UInt32) : Option SectionType :=
  [.S_REGULAR, .S_ZEROFILL, .S_CSTRING_LITERALS, .S_4BYTE_LITERALS, .S_8BYTE_LITERALS,
   .S_LITERAL_POINTERS, .S_NON_LAZY_SYMBOL_POINTERS, .S_LAZY_SYMBOL_POINTERS,
   .S_SYMBOL_STUBS, .S_MOD_INIT_FUNC_POINTERS, .S_MOD_TERM_FUNC_POINTERS, .S_COALESCED,
   .S_GB_ZEROFILL, .S_INTERPOSING, .S_16BYTE_LITERALS, .S_DTRACE_DOF,
   .S_LAZY_DYLIB_SYMBOL_POINTERS, .S_THREAD_LOCAL_REGULAR, .S_THREAD_LOCAL_ZEROFILL,
   .S_THREAD_LOCAL_VARIABLES, .S_THREAD_LOCAL_VARIABLE_POINTERS,
   .S_THREAD_LOCAL_INIT_FUNCTION_POINTERS, .S_INIT_FUNC_OFFSETS].find? fun t => t.rawValue == raw

/-- `hasIndirectSymbolTableEntries`. -/
def hasIndirectSymbolTableEntries : SectionType → Bool
  | .S_NON_LAZY_SYMBOL_POINTERS | .S_LAZY_SYMBOL_POINTERS | .S_LAZY_DYLIB_SYMBOL_POINTERS
  | .S_SYMBOL_STUBS => true
  | _ => false

end SectionType

/-- `SectionAttribute`. -/
inductive SectionAttribute where
  | S_ATTR_PURE_INSTRUCTIONS
  | S_ATTR_NO_TOC
  | S_ATTR_STRIP_STATIC_SYMS
  | S_ATTR_NO_DEAD_STRIP
  | S_ATTR_LIVE_SUPPORT
  | S_ATTR_SELF_MODIFYING_CODE
  | S_ATTR_DEBUG
  | S_ATTR_SOME_INSTRUCTIONS
  | S_ATTR_EXT_RELOC
  | S_ATTR_LOC_RELOC
  deriving DecidableEq

namespace SectionAttribute

/-- `name`. -/
def name : SectionAttribute → String
  | .S_ATTR_PURE_INSTRUCTIONS => "S_ATTR_PURE_INSTRUCTIONS"
  | .S_ATTR_NO_TOC => "S_ATTR_NO_TOC"
  | .S_ATTR_STRIP_STATIC_SYMS => "S_ATTR_STRIP_STATIC_SYMS"
  | .S_ATTR_NO_DEAD_STRIP => "S_ATTR_NO_DEAD_STRIP"
  | .S_ATTR_LIVE_SUPPORT => "S_ATTR_LIVE_SUPPORT"
  | .S_ATTR_SELF_MODIFYING_CODE => "S_ATTR_SELF_MODIFYING_CODE"
  | .S_ATTR_DEBUG => "S_ATTR_DEBUG"
  | .S_ATTR_SOME_INSTRUCTIONS => "S_ATTR_SOME_INSTRUCTIONS"
  | .S_ATTR_EXT_RELOC => "S_ATTR_EXT_RELOC"
  | .S_ATTR_LOC_RELOC => "S_ATTR_LOC_RELOC"

/-- The bit `SectionAttributes.init` tests for each attribute, in its order. -/
def masks : List (SectionAttribute × UInt32) :=
  [(.S_ATTR_PURE_INSTRUCTIONS, 0x80000000),
   (.S_ATTR_NO_TOC, 0x40000000),
   (.S_ATTR_STRIP_STATIC_SYMS, 0x20000000),
   (.S_ATTR_NO_DEAD_STRIP, 0x10000000),
   (.S_ATTR_LIVE_SUPPORT, 0x08000000),
   (.S_ATTR_SELF_MODIFYING_CODE, 0x04000000),
   (.S_ATTR_DEBUG, 0x02000000),
   (.S_ATTR_SOME_INSTRUCTIONS, 0x00000400),
   (.S_ATTR_EXT_RELOC, 0x00000200),
   (.S_ATTR_LOC_RELOC, 0x00000100)]

end SectionAttribute

/-- `SectionAttributes(raw:)`. -/
structure SectionAttributes where
  raw : UInt32
  deriving DecidableEq

/-- `attributes`. -/
def SectionAttributes.attributes (a : SectionAttributes) : List SectionAttribute :=
  (SectionAttribute.masks.filter fun m => a.raw &&& m.2 != 0).map Prod.fst

/-- `descriptions`. -/
def SectionAttributes.descriptions (a : SectionAttributes) : List String :=
  if a.attributes.isEmpty then ["NONE"] else a.attributes.map SectionAttribute.name

/-- `hasAttribute(_:)`. -/
def SectionAttributes.hasAttribute (a : SectionAttributes) (x : SectionAttribute) : Bool :=
  a.attributes.contains x

/-- `BuildToolType`. -/
inductive BuildToolType where
  | clang
  | swift
  | ld
  deriving DecidableEq

namespace BuildToolType

/-- `rawValue`. -/
def rawValue : BuildToolType → UInt32
  | .clang => 1
  | .swift => 2
  | .ld => 3

/-- `BuildToolType(rawValue:)`. -/
def ofRaw? (raw : UInt32) : Option BuildToolType :=
  [.clang, .swift, .ld].find? fun t => t.rawValue == raw

/-- `readable`. -/
def readable : BuildToolType → String
  | .clang => "Clang (TOOL_CLANG)"
  | .swift => "Swift (TOOL_SWIFT)"
  | .ld => "LD (TOOL_LD)"

end BuildToolType

/-- `BuildPlatform`. -/
inductive BuildPlatform where
  | macOS
  | iOS
  | tvOS
  | watchOS
  | bridgeOS
  | macCatalyst
  | iOSSimulator
  | tvOSSimulator
  | watchOSSimulator
  | driverKit
  deriving DecidableEq

namespace BuildPlatform

/-- `rawValue`. -/
def rawValue : BuildPlatform → UInt32
  | .macOS => 1
  | .iOS => 2
  | .tvOS => 3
  | .watchOS => 4
  | .bridgeOS => 5
  | .macCatalyst => 6
  | .iOSSimulator => 7
  | .tvOSSimulator => 8
  | .watchOSSimulator => 9
  | .driverKit => 10

/-- `BuildPlatform(rawValue:)`. -/
def ofRaw? (raw : UInt32) : Option BuildPlatform :=
  [.macOS, .iOS, .tvOS, .watchOS, .bridgeOS, .macCatalyst, .iOSSimulator, .tvOSSimulator,
   .watchOSSimulator, .driverKit].find? fun t => t.rawValue == raw

/-- `readable`. -/
def readable : BuildPlatform → String
  | .macOS => "PLATFORM_MACOS"
  | .iOS => "PLATFORM_IOS"
  | .tvOS => "PLATFORM_TVOS"
  | .watchOS => "PLATFORM_WATCHOS"
  | .bridgeOS => "PLATFORM_BRIDGEOS"
  | .macCatalyst => "PLATFORM_MACCATALYST"
  | .iOSSimulator => "PLATFORM_IOSSIMULATOR"
  | .tvOSSimulator => "PLATFORM_TVOSSIMULATOR"
  | .watchOSSimulator => "PLATFORM_WATCHOSSIMULATOR"
  | .driverKit => "PLATFORM_DRIVERKIT"

end BuildPlatform

end Mocha
