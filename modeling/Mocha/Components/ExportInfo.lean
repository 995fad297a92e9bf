import Mocha.Helpers.InterpreterUtils
import Mocha.Models.Translations

/-!
# Export tries (`ExportInfoComponent.swift`)

`generateNode` decodes one node of the trie at an offset given by the edge that leads to it, and
`allNodes` follows the edges. The offsets come from the file, so nothing bounds the recursion; its
depth is limited by the process's stack, which is the `stack` argument.
-/

namespace Mocha

open Lib Data

/-- `ExportSymbolFlag.Kind`. -/
inductive ExportKind where
  | regular
  | threadLocal
  | absolute
  deriving DecidableEq, Repr

/-- `Kind.readable`. -/
def ExportKind.readable : ExportKind → String
  | .regular => "EXPORT_SYMBOL_FLAGS_KIND_REGULAR"
  | .threadLocal => "EXPORT_SYMBOL_FLAGS_KIND_THREAD_LOCAL"
  | .absolute => "EXPORT_SYMBOL_FLAGS_KIND_ABSOLUTE"

/-- `ExportSymbolFlag`. -/
structure ExportSymbolFlag where
  kind : ExportKind
  isReExport : Bool
  isWeakDef : Bool
  isStubAndResolver : Bool
  byteCount : Nat
  deriving DecidableEq

/-- `ExportSymbolFlag(flags:)`. -/
def ExportSymbolFlag.init (flags : LEB128) : Run ExportSymbolFlag := do
  let kind ← guardLet (([(0x00, .regular), (0x01, .threadLocal), (0x02, .absolute)] :
    List (UInt64 × ExportKind)).lookup (flags.rawValue &&& 0x03))
  return ⟨kind, flags.rawValue &&& 0x08 != 0, flags.rawValue &&& 0x04 != 0,
    flags.rawValue &&& 0x10 != 0, flags.byteCount⟩

/-- `flagsDescription`. -/
def ExportSymbolFlag.flagsDescription (f : ExportSymbolFlag) : String :=
  joined "\n" ((if f.isReExport then ["EXPORT_SYMBOL_FLAGS_REEXPORT"] else []) ++
    (if f.isWeakDef then ["EXPORT_SYMBOL_FLAGS_WEAK_DEFINITION"] else []) ++
    (if f.isStubAndResolver then ["EXPORT_SYMBOL_FLAGS_STUB_AND_RESOLVER"] else []))

/-- `ExportInfoNodeEdge`. -/
structure ExportInfoNodeEdge where
  edgeName : Field CString
  offset : Field LEB128
  deriving DecidableEq

/-- `ExportInfoNode`. -/
structure ExportInfoNode where
  startOffsetInMacho : Nat
  accumulatedString : String
  terminalSize : Field LEB128
  flags : Option (Field ExportSymbolFlag)
  leb128Array : Option (List (Field LEB128))
  reExportedSymbolName : Option (Field CString)
  edgesCount : Field LEB128
  edges : List ExportInfoNodeEdge
  deriving DecidableEq

/-- A LEB128 number of a node, as it is shown. -/
def lebLine (f : Field LEB128) (definition text : String) : GeneralTranslation :=
  f.translation definition text f.value.byteCount .uleb

/-- `ExportInfoNode.translations`. -/
def ExportInfoNode.translations (n : ExportInfoNode) : List GeneralTranslation :=
  let size := lebLine n.terminalSize "Terminal Size" (decimal n.terminalSize.value.rawValue.toNat)
  let payload := match n.flags, n.leb128Array with
    | some flags, some leb128Array =>
      [(flags.translation "Kind" flags.value.kind.readable flags.value.byteCount .uleb).extra
        (some "Flags") (some flags.value.flagsDescription)] ++
      leb128Array.map (fun leb => lebLine leb "LEB" (hex leb.value.rawValue.toNat)) ++
      n.reExportedSymbolName.toList.map (fun s =>
        s.translation "ReExported Symbol Name" s.value.rawValue s.value.byteCount .utf8String)
    | _, _ => []
  [size.extra (some "Trie Node Name Prefix") (some n.accumulatedString)] ++ payload ++
  [lebLine n.edgesCount "Number of Edges" (decimal n.edgesCount.value.rawValue.toNat)] ++
  n.edges.flatMap fun e =>
    [e.edgeName.translation "Edge Name" e.edgeName.value.rawValue e.edgeName.value.byteCount
      .utf8String,
     lebLine e.offset "Edge Offset" (hex e.offset.value.rawValue.toNat)]

/-- The part of a terminal node: its flags, its numbers, the re-exported name, and the offset after
them. -/
structure ExportPayload where
  flags : Field ExportSymbolFlag
  leb128Array : List (Field LEB128)
  reExportedSymbolName : Option (Field CString)
  endOffset : Nat

/-- The body of `if terminalSizeLEB.rawValue != 0 { … }`. -/
def readPayload (d : Data) (endOffset : Nat) : Run ExportPayload := do
  let flagsLEB ← readULEB128 d endOffset
  let endOffset := endOffset + flagsLEB.value.byteCount
  let flags ← ExportSymbolFlag.init flagsLEB.value
  let first ← readULEB128 d endOffset
  let endOffset := endOffset + first.value.byteCount
  if flags.isReExport then
    let name ← readUTF8String d endOffset false
    return ⟨flagsLEB.map fun _ => flags, [first], some name, endOffset + name.value.byteCount⟩
  else if flags.isStubAndResolver then
    let resolver ← readULEB128 d endOffset
    return ⟨flagsLEB.map fun _ => flags, [first, resolver], none,
      endOffset + resolver.value.byteCount⟩
  else return ⟨flagsLEB.map fun _ => flags, [first], none, endOffset⟩

/-- `for _ in 0..<edgesCountLEB.rawValue { … }`. -/
def readEdges (d : Data) : Nat → Nat → Run (List ExportInfoNodeEdge)
  | 0, _ => .ok []
  | n + 1, endOffset => do
    let edgeName ← readUTF8String d endOffset true
    let endOffset := endOffset + edgeName.value.byteCount
    let offset ← readULEB128 d endOffset
    let edges ← readEdges d n (endOffset + offset.value.byteCount)
    return ⟨edgeName, offset⟩ :: edges

/-- `generateNode(from:for:parentNode:)`; the root has neither an edge nor a parent. -/
def generateNode (d : Data) (parent : Option (ExportInfoNodeEdge × ExportInfoNode)) :
    Run ExportInfoNode := do
  let offset := (parent.map fun p => p.1.offset.value.rawValue).getD 0
  if 2 ^ 63 ≤ offset.toNat then .error .overflow
  let startOffset := offset.toNat
  let accumulatedString :=
    (parent.map fun p => p.2.accumulatedString ++ p.1.edgeName.value.rawValue).getD ""
  let terminalSize ← readULEB128 d startOffset
  let endOffset := startOffset + terminalSize.value.byteCount
  let payload ← if terminalSize.value.rawValue != 0 then some <$> readPayload d endOffset
    else pure none
  let endOffset := (payload.map ExportPayload.endOffset).getD endOffset
  let edgesCount ← readULEB128 d endOffset
  let edges ← readEdges d edgesCount.value.rawValue.toNat (endOffset + edgesCount.value.byteCount)
  return {
    startOffsetInMacho := d.startIndex + startOffset
    accumulatedString := accumulatedString
    terminalSize := terminalSize
    flags := payload.map ExportPayload.flags
    leb128Array := payload.map ExportPayload.leb128Array
    reExportedSymbolName := payload.bind ExportPayload.reExportedSymbolName
    edgesCount := edgesCount
    edges := edges }

/-- `allNodes(from:in:)`, on a stack of the given depth. -/
def allNodes (d : Data) : Nat → ExportInfoNode → Run (List ExportInfoNode)
  | 0, _ => .error .stackOverflow
  | stack + 1, root => do
    let children ← root.edges.mapM fun e => generateNode d (some (e, root))
    let below ← children.mapM (allNodes d stack)
    return root :: below.flatten

/-- `ExportInfoComponent.runInitializing()`. -/
def initExportInfo (stack : Nat) (d : Data) : Run (List ExportInfoNode) := do
  let root ← generateNode d none
  let nodes ← allNodes d stack root
  return nodes.mergeSort fun a b => decide (a.startOffsetInMacho ≤ b.startOffsetInMacho)

/-- `ExportInfoComponent.runTranslating()`. -/
def translateExportInfo (nodes : List ExportInfoNode) : List TranslationGroup :=
  nodes.map ExportInfoNode.translations

end Mocha
