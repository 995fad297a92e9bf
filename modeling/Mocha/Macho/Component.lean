import Mocha.Components.CString
import Mocha.Components.ExportInfo
import Mocha.Components.FunctionStarts
import Mocha.Components.ModelBased
import Mocha.Components.OperationCode
import Mocha.Components.Pointer
import Mocha.Components.Relocation
import Mocha.Components.SwiftMetadata
import Mocha.Components.UString
import Mocha.LoadCommand.LoadCommand
import Mocha.Macho.Header

/-!
# Components (`MachoComponent.swift`)

A Mach-O file is shown as a list of components, each a slice of the file. `ComponentKind` is the
subclass of a `MachoComponent` with what its constructor stores; `ComponentState` is what
`runInitializing` fills in later. `runInitializing` and `runTranslating` are the two virtual
methods. Both may look at other components through `macho` (`MachoView`), at the moment they run.

The functions that cut the components out of the file are here too, each under the name of the
method of the load command, segment or section header that has it.
-/

namespace Mocha

open Lib Data

/-- `CapStoneArchType`. -/
inductive CapStoneArchType where
  | I386
  | X8664
  | ARM
  | ARM64
  deriving DecidableEq, Repr

/-- The subclass of a component and the fields its constructor sets. -/
inductive ComponentKind where
  | machoHeader (header : MachoHeader)
  | loadCommand (command : LoadCommand)
  | zeroFilled (runtimeSize : Nat)
  | cStringSection (baseVirtualAddress : UInt64)
  | stringTable
  | literalPointer (is64Bit : Bool)
  | symbolPointer (is64Bit : Bool) (sectionType : SectionType)
      (startIndexInIndirectSymbolTable : Nat)
  | instruction (capStoneArchType : CapStoneArchType) (virtualAddress : UInt64)
  | textConst
  | unknown
  | uString
  | protocolDescriptors (virtualAddress : UInt64)
  | protocolConformances (virtualAddress : UInt64)
  | relocationTable (relocationInfos : List RelocationInfo)
  | dataInCode (is64Bit : Bool)
  | functionStarts (textSegmentVirtualAddress : UInt64) (functionStarts : List (Field FunctionStart))
  | exportInfo (is64Bit : Bool)
  | rebase
  | bind
  | symbolTable (is64Bit : Bool)
  | indirectSymbolTable (is64Bit : Bool)
  deriving DecidableEq

/-- The kinds of the tables a `Macho` has at most one of. -/
def ComponentKind.isTable : ComponentKind → Bool
  | .stringTable | .symbolTable _ | .indirectSymbolTable _ => true
  | _ => false

/-- `MachoComponent`. -/
structure MachoComponent where
  title : String
  subTitle : Option String
  data : Data
  kind : ComponentKind
  deriving DecidableEq

namespace MachoComponent

/-- `dataSize`. -/
def dataSize (c : MachoComponent) : Nat := c.data.count

/-- `offsetInMacho`. -/
def offsetInMacho (c : MachoComponent) : Nat := c.data.startIndex

end MachoComponent

/-- What `runInitializing` fills in; each kind of component has one of these. The instruction bank
of an instruction section is left out: `runTranslating` does not look at it. -/
structure ComponentState where
  cStrings : CStrings
  symbolTable : SymbolTable
  indirectSymbols : List IndirectSymbolTableEntry
  dataInCode : List DataInCodeModel
  relocationEntries : List RelocationEntry
  pointerValues : List (Field UInt64)
  uStringPositions : List UStringPosition
  protocolDescriptors : List (SwiftMetadataContainer ProtocolDescriptor)
  protocolConformances : List (SwiftMetadataContainer ProtocolConformanceDescriptor)
  exportInfoNodes : List ExportInfoNode
  rebaseCodes : List (OperationCode RebaseOperationCodeMetadata)
  bindCodes : List (OperationCode BindOperationCodeMetadata)

/-- A component before `runInitializing`. -/
def ComponentState.fresh : ComponentState :=
  ⟨CStrings.empty, SymbolTable.empty, [], [], [], [], [], [], [], [], [], []⟩

/-- `runInitializing()`. -/
def MachoComponent.runInitializing (stack : Nat) (c : MachoComponent) (v : MachoView) :
    Run ComponentState :=
  let s := ComponentState.fresh
  match c.kind with
  | .cStringSection _ | .stringTable => do
    return { s with cStrings := ← CStrings.runInitializing c.data }
  | .literalPointer is64Bit | .symbolPointer is64Bit _ _ => do
    return { s with pointerValues := ← initPointers is64Bit c.data }
  | .uString => do return { s with uStringPositions := ← initUStrings c.data }
  | .protocolDescriptors _ => do
    return { s with protocolDescriptors := ← initSwiftMetadata v c.data }
  | .protocolConformances _ => do
    return { s with protocolConformances := ← initSwiftMetadata v c.data }
  | .relocationTable infos => do
    return { s with relocationEntries := ← initRelocations infos c.data }
  | .dataInCode is64Bit => do
    return { s with dataInCode := ← initModels DataInCodeModel is64Bit v c.data }
  | .exportInfo _ => do return { s with exportInfoNodes := ← initExportInfo stack c.data }
  | .rebase => do
    return { s with rebaseCodes := ← operationCodes RebaseOperationCodeMetadata c.data }
  | .bind => do
    return { s with bindCodes := ← operationCodes BindOperationCodeMetadata c.data }
  | .symbolTable is64Bit => do
    return { s with symbolTable := ← SymbolTable.runInitializing is64Bit v c.data }
  | .indirectSymbolTable is64Bit => do
    return { s with indirectSymbols := ← initModels IndirectSymbolTableEntry is64Bit v c.data }
  | .machoHeader _ | .loadCommand _ | .zeroFilled _ | .instruction _ _ | .textConst | .unknown
  | .functionStarts _ _ => .ok s

/-- A translation of no bytes, which a component without a decoder shows. -/
def placeholder (c : MachoComponent) (definition text : String) : List TranslationGroup :=
  [[(Field.mk () (Span.of c.offsetInMacho 0)).translation definition text 0 .rawData]]

/-- `runTranslating()`. -/
def MachoComponent.runTranslating (c : MachoComponent) (v : MachoView) (s : ComponentState) :
    Run (List TranslationGroup) :=
  match c.kind with
  | .machoHeader header => header.runTranslating
  | .loadCommand command => command.runTranslating
  | .zeroFilled runtimeSize => .ok (placeholder c "Zero Filled Section"
      ("This section has no data in the macho file.\nIts in memory size is " ++
        intHex runtimeSize))
  | .cStringSection _ | .stringTable => .ok s.cStrings.runTranslating
  | .literalPointer is64Bit =>
    translatePointers (fun p _ => literalPointerTranslation is64Bit v p) s.pointerValues
  | .symbolPointer is64Bit sectionType start =>
    translatePointers (symbolPointerTranslation is64Bit sectionType start v) s.pointerValues
  | .instruction _ _ => .ok []
  | .textConst | .unknown => .ok (placeholder c "Unknow"
      "Mocha doesn's know how to parse this section yet.")
  | .uString => translateUStrings c.data s.uStringPositions
  | .protocolDescriptors _ => .ok (translateSwiftMetadata s.protocolDescriptors)
  | .protocolConformances _ => .ok (translateSwiftMetadata s.protocolConformances)
  | .relocationTable _ => .ok (s.relocationEntries.map RelocationEntry.translations)
  | .dataInCode _ => translateModels v s.dataInCode
  | .functionStarts address starts => translateFunctionStarts address v starts
  | .exportInfo _ => .ok (translateExportInfo s.exportInfoNodes)
  | .rebase => .ok (s.rebaseCodes.map OperationCode.translations)
  | .bind => .ok (s.bindCodes.map OperationCode.translations)
  | .symbolTable _ => translateModels v s.symbolTable.models
  | .indirectSymbolTable _ => translateModels v s.indirectSymbols

/-! ## Cutting the components out of the file -/

/-- A `MachoHeader` as a component. -/
def MachoHeader.component (h : MachoHeader) : MachoComponent :=
  ⟨"Mach Header", none, h.data, .machoHeader h⟩

/-- A `LoadCommand` as a component. -/
def LoadCommand.component (c : LoadCommand) : MachoComponent :=
  ⟨c.title, c.subTitle, c.data, .loadCommand c⟩

/-- `PointerComponent.init`, for the subclass given by `kind`. -/
def pointerComponent (data : Data) (is64Bit : Bool) (title : String) (kind : ComponentKind) :
    Run MachoComponent := do
  pointerGuard is64Bit data
  return ⟨title, none, data, kind⟩

/-- The architecture of a CPU type, if capstone has one for it. -/
def capStoneArchType : CPUType → Run CapStoneArchType
  | .x86 => .ok .I386
  | .x86_64 => .ok .X8664
  | .arm => .ok .ARM
  | .arm64 => .ok .ARM64
  | .arm64_32 | .unknown _ => fatalError

/-- `InstructionComponent(_:title:cpuType:virtualAddress:)`. -/
def instructionComponent (data : Data) (title : String) (cpuType : CPUType)
    (virtualAddress : UInt64) : Run MachoComponent := do
  return ⟨title, none, data, .instruction (← capStoneArchType cpuType) virtualAddress⟩

/-- `FunctionStartsComponent(_:title:textSegmentVirtualAddress:)`. -/
def functionStartsComponent (data : Data) (title : String) (textSegmentVirtualAddress : UInt64) :
    Run MachoComponent := do
  let starts ← functionStarts data
  return ⟨title, none, data, .functionStarts textSegmentVirtualAddress starts⟩

/-- The types of a section that has no data in the file. -/
def SectionType.isZeroFill : SectionType → Bool
  | .S_ZEROFILL | .S_THREAD_LOCAL_ZEROFILL | .S_GB_ZEROFILL => true
  | _ => false

/-- The types of a section of symbol pointers. -/
def SectionType.isSymbolPointers : SectionType → Bool
  | .S_LAZY_SYMBOL_POINTERS | .S_NON_LAZY_SYMBOL_POINTERS | .S_LAZY_DYLIB_SYMBOL_POINTERS => true
  | _ => false

/-- The component of a section recognized by its name. -/
def namedSectionKind (h : SectionHeader) : ComponentKind :=
  if h.segment.value = "__TEXT" then
    if h.section_.value = "__const" then .textConst
    else if h.section_.value = "__ustring" then .uString
    else if h.section_.value = "__swift5_reflstr" then .cStringSection h.addr.value
    else if h.section_.value = "__swift5_protos" then .protocolDescriptors h.addr.value
    else if h.section_.value = "__swift5_proto" then .protocolConformances h.addr.value
    else .unknown
  else .unknown

/-- `SectionComponent.createComponent(machoData:machoHeader:sectionHeader:)`. -/
def createComponent (machoData : Data) (machoHeader : MachoHeader) (h : SectionHeader) :
    Run MachoComponent := do
  let is64Bit := machoHeader.is64Bit
  let title := h.segment.value ++ "," ++ h.section_.value
  let offset := h.offset.value.toNat
  let size ← intOf h.size.value
  match h.sectionType.value with
  | .S_ZEROFILL | .S_THREAD_LOCAL_ZEROFILL | .S_GB_ZEROFILL =>
    return ⟨title, none, ⟨0, []⟩, .zeroFilled size⟩
  | .S_CSTRING_LITERALS =>
    let data ← machoData.subSequence offset size
    return ⟨title, none, data, .cStringSection h.addr.value⟩
  | .S_LITERAL_POINTERS =>
    let data ← machoData.subSequence offset size
    pointerComponent data is64Bit title (.literalPointer is64Bit)
  | .S_LAZY_SYMBOL_POINTERS | .S_NON_LAZY_SYMBOL_POINTERS | .S_LAZY_DYLIB_SYMBOL_POINTERS =>
    let data ← machoData.subSequence offset size
    pointerComponent data is64Bit title
      (.symbolPointer is64Bit h.sectionType.value h.reserved1.value.toNat)
  | _ =>
    if h.sectionAttributes.value.hasAttribute .S_ATTR_PURE_INSTRUCTIONS then
      let data ← machoData.subSequence offset size
      instructionComponent data title machoHeader.cpuType.value h.addr.value
    else
      let data ← machoData.subSequenceAllowing true offset size
      return ⟨title, none, data, namedSectionKind h⟩

/-- `LCSegment.relocationTable(machoData:machoHeader:)` as a component. -/
def LCSegment.relocationComponent (c : LCSegment) (machoData : Data) :
    Run (Option MachoComponent) := do
  let table ← c.relocationTable machoData
  return table.map fun t => ⟨"Relocation Table", none, t.1, .relocationTable t.2⟩

/-- `LCSymbolTable.symbolTable(machoData:machoHeader:)`. -/
def LCSymbolTable.symbolTable (c : LCSymbolTable) (machoData : Data) (is64Bit : Bool) :
    Run MachoComponent := do
  let entrySize := if is64Bit then 16 else 12
  let data ← machoData.subSequence c.symbolTableOffset.value.toNat
    (c.numberOfSymbolTableEntries.value.toNat * entrySize)
  return ⟨"Symbol Table", none, data, .symbolTable is64Bit⟩

/-- `LCSymbolTable.stringTable(machoData:)`. -/
def LCSymbolTable.stringTable (c : LCSymbolTable) (machoData : Data) : Run MachoComponent := do
  let data ← machoData.subSequence c.stringTableOffset.value.toNat c.sizeOfStringTable.value.toNat
  return ⟨"String Table", none, data, .stringTable⟩

/-- `LCDynamicSymbolTable.indirectSymbolTable(machoData:machoHeader:)`. The product of two `UInt32`
is one. -/
def LCDynamicSymbolTable.indirectSymbolTable (c : LCDynamicSymbolTable) (machoData : Data)
    (is64Bit : Bool) : Run (Option MachoComponent) := do
  let size := c.nindirectsyms.value.toNat * 4
  if 2 ^ 32 ≤ size then .error .overflow
  if size = 0 then return none
  let data ← machoData.subSequence c.indirectsymoff.value.toNat size
  return some ⟨"Indirect Symbol Table", none, data, .indirectSymbolTable is64Bit⟩

/-- `LCLinkedITData.linkedITComponent(machoData:machoHeader:textSegmentLoadCommand:)`, for a command
of the given type and title. -/
def LCLinkedITData.linkedITComponent (c : LCLinkedITData) (type : LoadCommandType) (title : String)
    (machoData : Data) (is64Bit : Bool) (textSegmentLoadCommand : Option LCSegment) :
    Run MachoComponent := do
  let data ← machoData.subSequenceAllowing true c.containedDataFileOffset.value.toNat
    c.containedDataSize.value.toNat
  match type with
  | .dataInCode => return ⟨← LCLinkedITData.dataName type, none, data, .dataInCode is64Bit⟩
  | .codeSignature => return ⟨← LCLinkedITData.dataName type, none, data, .unknown⟩
  | .functionStarts =>
    let textSegment ← guardLet textSegmentLoadCommand
    functionStartsComponent data (← LCLinkedITData.dataName type) textSegment.vmaddr.value
  | .dyldExportsTrie => return ⟨← LCLinkedITData.dataName type, none, data, .exportInfo is64Bit⟩
  | _ => return ⟨title, none, data, .unknown⟩

/-- One of the five blocks of `dyldInfoComponents`: no component for a zero offset or size. -/
def dyldInfoComponent (machoData : Data) (start size : Nat) (title : String)
    (kind : ComponentKind) : Run (Option MachoComponent) :=
  if start ≠ 0 ∧ size ≠ 0 then do
    let data ← machoData.subSequence start size
    return some ⟨title, none, data, kind⟩
  else .ok none

/-- The offset, the size, the title and the kind of the five blocks of `dyldInfoComponents`. -/
def LCDyldInfo.blocks (c : LCDyldInfo) (is64Bit : Bool) :
    List (Nat × Nat × String × ComponentKind) :=
  [(c.rebaseOffset.value.toNat, c.rebaseSize.value.toNat, "Rebase Opcode", .rebase),
   (c.bindOffset.value.toNat, c.bindSize.value.toNat, "Binding Opcode", .bind),
   (c.weakBindOffset.value.toNat, c.weakBindSize.value.toNat, "Weak Binding Opcode", .bind),
   (c.lazyBindOffset.value.toNat, c.lazyBindSize.value.toNat, "Lazy Binding Opcode", .bind),
   (c.exportOffset.value.toNat, c.exportSize.value.toNat, "Export Info", .exportInfo is64Bit)]

/-- `LCDyldInfo.dyldInfoComponents(machoData:machoHeader:)`. -/
def LCDyldInfo.dyldInfoComponents (c : LCDyldInfo) (machoData : Data) (is64Bit : Bool) :
    Run (List MachoComponent) := do
  let components ← (c.blocks is64Bit).mapM fun b =>
    dyldInfoComponent machoData b.1 b.2.1 b.2.2.1 b.2.2.2
  return components.reduceOption

end Mocha
