import Mocha.Helpers.Layout
import Mocha.Macho.Component

/-!
# A Mach-O file (`Macho.swift`)

`Macho.init` decodes the load commands, cuts the components out of the file, sets `macho` on each of
them and starts their initialization. Setting `macho` runs the `didSet` observers, which register a
component with the ones it waits for. A component is identified by its position in `allComponents`
(the source compares a `UUID`); `edges` are the registered pairs, parent first, in the order
`addChildComponent` was called.
-/

namespace Mocha

open Lib Data

/-- `Macho`. -/
structure Macho where
  machoData : Data
  machoFileName : String
  machoHeader : MachoHeader
  loadCommands : List LoadCommand
  sectionComponents : List MachoComponent
  relocationTables : List MachoComponent
  linkedITComponents : List MachoComponent
  dyldInfoComponents : List MachoComponent
  symbolTable : Option MachoComponent
  indirectSymbolTable : Option MachoComponent
  stringTable : Option MachoComponent
  edges : List (Nat × Nat)
  deriving DecidableEq

/-! ## The commands of each class -/

section Commands

variable (commands : List LoadCommand)

/-- `loadCommands.compactMap { $0 as? LCSegment }`. -/
def segmentCommands : List LCSegment :=
  commands.filterMap fun c => match c.body with
    | .segment b => some b
    | _ => none

/-- `(loadCommands.compactMap { $0 as? LCSymbolTable }).first`. -/
def symbolTableLoadCommand : Option LCSymbolTable :=
  commands.findSome? fun c => match c.body with
    | .symbolTable b => some b
    | _ => none

/-- `(loadCommands.compactMap { $0 as? LCDynamicSymbolTable }).first`. -/
def indirectSymbolTableLoadCommand : Option LCDynamicSymbolTable :=
  commands.findSome? fun c => match c.body with
    | .dynamicSymbolTable b => some b
    | _ => none

/-- `loadCommands.compactMap { $0 as? LCLinkedITData }`, with the type and the title of each. -/
def linkedITDataLoadCommands : List (LoadCommandType × String × LCLinkedITData) :=
  commands.filterMap fun c => match c.body with
    | .linkedITData b => some (c.type.value, c.title, b)
    | _ => none

/-- `loadCommands.compactMap { $0 as? LCDyldInfo }`. -/
def dyldInfoLoadCommands : List LCDyldInfo :=
  commands.filterMap fun c => match c.body with
    | .dyldInfo b => some b
    | _ => none

/-- `segmentCommands.first { $0.segmentName == "__TEXT" }`. -/
def textSegmentLoadCommand : Option LCSegment :=
  (segmentCommands commands).find? fun c => c.segmentName.value == "__TEXT"

end Commands

namespace Macho

variable (m : Macho)

/-- `sectionHeaders`. -/
def sectionHeaders : List SectionHeader :=
  (segmentCommands m.loadCommands).flatMap LCSegment.sectionHeaders

/-- `allComponents`. -/
def allComponents : List MachoComponent :=
  [m.machoHeader.component] ++ m.loadCommands.map LoadCommand.component ++ m.sectionComponents ++
    m.relocationTables ++ m.linkedITComponents ++ m.dyldInfoComponents ++ m.symbolTable.toList ++
    m.indirectSymbolTable.toList ++ m.stringTable.toList

/-- `textConstComponent`. -/
def textConstComponent : Option MachoComponent :=
  m.sectionComponents.find? fun c => c.kind = .textConst

/-! ## Dependencies -/

/-- The position of `stringTable`. -/
def stringTableID : Option Nat := m.allComponents.findIdx? fun c => c.kind = .stringTable

/-- The position of `symbolTable`. -/
def symbolTableID : Option Nat :=
  m.allComponents.findIdx? fun c => match c.kind with
    | .symbolTable _ => true
    | _ => false

/-- The position of `indirectSymbolTable`. -/
def indirectSymbolTableID : Option Nat :=
  m.allComponents.findIdx? fun c => match c.kind with
    | .indirectSymbolTable _ => true
    | _ => false

/-- The positions and the base addresses of `cStringSectionComponents`. -/
def cStringSections : List (Nat × UInt64) :=
  m.allComponents.zipIdx.filterMap fun p => match p.1.kind with
    | .cStringSection baseVirtualAddress => some (p.2, baseVirtualAddress)
    | _ => none

/-- The components whose `addChildComponent` the `didSet` observer of a component calls. -/
def registersWith : ComponentKind → Run (List Nat)
  | .symbolTable _ | .functionStarts _ _ => do return [← guardLet m.stringTableID]
  | .indirectSymbolTable _ => do return [← guardLet m.symbolTableID]
  | .symbolPointer _ _ _ => do return [← guardLet m.indirectSymbolTableID]
  | .literalPointer _ => .ok (m.cStringSections.map Prod.fst)
  | _ => .ok []

/-- `addChildComponent(_:)` of `parent`. -/
def addChildComponent (child : Nat) (edges : List (Nat × Nat)) (parent : Nat) :
    Run (List (Nat × Nat)) := do
  guardElse (!edges.contains (parent, child))
  return edges ++ [(parent, child)]

/-- `macho { didSet { … } }` of the component at a position. -/
def didSetMacho (edges : List (Nat × Nat)) (p : MachoComponent × Nat) : Run (List (Nat × Nat)) := do
  let parents ← m.registersWith p.1.kind
  parents.foldlM (addChildComponent p.2) edges

/-- `self.allComponents.forEach { $0.macho = self }`. -/
def setMacho : Run (List (Nat × Nat)) := m.allComponents.zipIdx.foldlM m.didSetMacho []

end Macho

/-- The part of `Macho.init` before the observers run. -/
def Macho.build (machoData : Data) (machoFileName : String) (machoHeader : MachoHeader) :
    Run Macho := do
  let is64Bit := machoHeader.is64Bit
  let commandData ← machoData.subSequence machoHeader.data.count
    machoHeader.sizeOfAllLoadCommand.value.toNat
  let commands ← Mocha.loadCommands commandData
  guardElse (commands.length == machoHeader.numberOfLoadCommands.value.toNat)
  let segments := segmentCommands commands
  let relocationTables ← segments.mapM fun c => c.relocationComponent machoData
  let symbolTable ← (symbolTableLoadCommand commands).mapM fun c => c.symbolTable machoData is64Bit
  let stringTable ← (symbolTableLoadCommand commands).mapM fun c => c.stringTable machoData
  let indirectSymbolTable ← (indirectSymbolTableLoadCommand commands).mapM fun c =>
    c.indirectSymbolTable machoData is64Bit
  let sectionComponents ← (segments.flatMap LCSegment.sectionHeaders).mapM
    (createComponent machoData machoHeader)
  let linkedITComponents ← (linkedITDataLoadCommands commands).mapM fun c =>
    c.2.2.linkedITComponent c.1 c.2.1 machoData is64Bit (textSegmentLoadCommand commands)
  let dyldInfoComponents ← (dyldInfoLoadCommands commands).mapM fun c =>
    c.dyldInfoComponents machoData is64Bit
  return {
    machoData := machoData
    machoFileName := machoFileName
    machoHeader := machoHeader
    loadCommands := commands
    sectionComponents := sectionComponents
    relocationTables := relocationTables.reduceOption
    linkedITComponents := linkedITComponents
    dyldInfoComponents := dyldInfoComponents.flatten
    symbolTable := symbolTable
    indirectSymbolTable := indirectSymbolTable.join
    stringTable := stringTable
    edges := [] }

/-- `Macho(with:machoFileName:machoHeader:)`. -/
def Macho.init (machoData : Data) (machoFileName : String) (machoHeader : MachoHeader) :
    Run Macho := do
  let m ← Macho.build machoData machoFileName machoHeader
  let edges ← m.setMacho
  return { m with edges := edges }

/-! ## A small file -/

/-- A `__TEXT` segment with one zero-fill section, a symbol table with the symbol `f` at address 16,
its string table, and a function start at the same address. -/
def functionFile : Data :=
  ⟨0, word 0xfeedfacf ++ word 0x0100000c ++ word 0 ++ word 2 ++ word 3 ++ word 192 ++ word 0 ++
      word 0 ++
    (word 0x19 ++ word 152 ++ paddedName 16 "__TEXT" ++ quad 0 ++ quad 0x1000 ++ quad 0 ++
      quad 0 ++ word 5 ++ word 5 ++ word 1 ++ word 0) ++
    (paddedName 16 "__text" ++ paddedName 16 "__TEXT" ++ quad 0 ++ quad 0x20 ++ word 0 ++ word 0 ++
      word 0 ++ word 0 ++ word 1 ++ word 0 ++ word 0 ++ word 0) ++
    (word 0x2 ++ word 24 ++ word 224 ++ word 1 ++ word 240 ++ word 3) ++
    (word 0x26 ++ word 16 ++ word 243 ++ word 1) ++
    (word 1 ++ [0x0e, 1, 0, 0] ++ quad 16) ++ [0, 0x66, 0] ++ [16]⟩

/-- Its header. -/
def functionFileHeader : MachoHeader := MachoHeader.layout true (functionFile.window 0 32)

end Mocha
