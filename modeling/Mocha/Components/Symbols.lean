import Mocha.Components.CString
import Mocha.LoadCommand.Segment

/-!
# Symbol tables (`SymbolTableEntry.swift`, `SymbolTable.swift`, `IndirectSymbolTable.swift`)

A symbol table entry looks its name up in the string table while it is decoded, and the other
tables look entries up while they are shown. What a component can see of the others goes through
`macho`; `MachoView` is that view at one moment: the tables as far as they have been filled in, and
the parts of the file that never change.
-/

namespace Mocha

open Lib Data DataShifter

/-- `a + b` on `UInt64`, which traps when it overflows. -/
def plus (a b : UInt64) : Run UInt64 :=
  if a.toNat + b.toNat < 2 ^ 64 then .ok (a + b) else .error .overflow

/-- `Int(n)` for a `UInt64`. -/
def intOf (n : UInt64) : Run Nat :=
  if n.toNat < 2 ^ 63 then .ok n.toNat else .error .overflow

/-! ## Symbol types -/

/-- `StabType`. -/
inductive StabType where
  | gsym
  | fname
  | fun_
  | stsym
  | lcsym
  | main
  | pc
  | rsym
  | sline
  | dsline
  | bsline
  | ssym
  | sol
  | lsym
  | bincl
  | so
  | psym
  | eincl
  | entry
  | lbrac
  | excl
  | rbrac
  | bcomm
  | ecomm
  | ecoml
  | leng
  deriving DecidableEq, Repr

/-- The cases of `StabType` with their raw values. -/
def StabType.rawValues : List (UInt8 × StabType) :=
  [(0x20, .gsym), (0x22, .fname), (0x24, .fun_), (0x26, .stsym), (0x28, .lcsym), (0x2a, .main),
   (0x30, .pc), (0x40, .rsym), (0x44, .sline), (0x46, .dsline), (0x48, .bsline), (0x60, .ssym),
   (0x64, .sol), (0x80, .lsym), (0x82, .bincl), (0x84, .so), (0xa0, .psym), (0xa2, .eincl),
   (0xa4, .entry), (0xc0, .lbrac), (0xc2, .excl), (0xe0, .rbrac), (0xe2, .bcomm), (0xe4, .ecomm),
   (0xe8, .ecoml), (0xfe, .leng)]

/-- `StabType(rawValue:)`. -/
def StabType.ofRaw? (raw : UInt8) : Option StabType := StabType.rawValues.lookup raw

/-- `SymbolType`. -/
inductive SymbolType where
  | stab (type : Option StabType)
  | undefined
  | absolute
  | section_
  | preBound
  | indirect
  deriving DecidableEq, Repr

/-- `SymbolType.readable`. -/
def SymbolType.readable : SymbolType → String
  | .stab _ => "N_STAB"
  | .undefined => "Undefined Symbol (N_UNDF)"
  | .absolute => "Absolute Symbol (N_ABS)"
  | .section_ => "Defined in "
  | .preBound => "Prebound undefined (N_PBUD)"
  | .indirect => "Indirect Symbol (N_INDR)"

/-- `SymbolType(rawValue:)`. -/
def SymbolType.init (rawValue : UInt8) : Run SymbolType :=
  if rawValue &&& 0xe0 != 0 then .ok (.stab (StabType.ofRaw? rawValue))
  else if rawValue &&& 0x0e == 0x0 then .ok .undefined
  else if rawValue &&& 0x0e == 0x2 then .ok .absolute
  else if rawValue &&& 0x0e == 0xe then .ok .section_
  else if rawValue &&& 0x0e == 0xc then .ok .preBound
  else if rawValue &&& 0x0e == 0xa then .ok .indirect
  else fatalError

/-! ## The tables -/

/-- `SymbolTableEntry`. The type and the two external flags are parts of one byte. -/
structure SymbolTableEntry where
  is64Bit : Bool
  indexInStringTable : Field UInt32
  symbolName : String
  symbolType : Field SymbolType
  isPrivateExternalSymbol : Bool
  isExternalSymbol : Bool
  nSect : Field UInt8
  nDesc : Field UInt16
  nValue : Field UInt64
  deriving DecidableEq

/-- What `SymbolTable.runInitializing` fills in. The map from addresses to indices is the list of
its assignments, the last one first. -/
structure SymbolTable where
  models : List SymbolTableEntry
  symbolTableEntryMap : List (UInt64 × List Nat)
  deriving DecidableEq

namespace SymbolTable

/-- The table before `runInitializing`. -/
def empty : SymbolTable := ⟨[], []⟩

/-- The loop `for (index, symbolEntry) in self.models.enumerated()`. -/
def entryMap : Nat → List (UInt64 × List Nat) → List SymbolTableEntry → List (UInt64 × List Nat)
  | _, map, [] => map
  | index, map, e :: es =>
    match map.lookup e.nValue.value with
    | some existedIndexs =>
      entryMap (index + 1) ((e.nValue.value, existedIndexs ++ [index]) :: map) es
    | none => entryMap (index + 1) ((e.nValue.value, [index]) :: map) es

/-- The table of the given entries. -/
def ofModels (models : List SymbolTableEntry) : SymbolTable := ⟨models, entryMap 0 [] models⟩

/-- `findSymbol(byVirtualAddress:)`. -/
def findSymbolBy (t : SymbolTable) (virtualAddress : UInt64) : Run (List SymbolTableEntry) :=
  ((t.symbolTableEntryMap.lookup virtualAddress).getD []).mapM fun index =>
    match t.models[index]? with
    | some e => .ok e
    | none => .error .outOfBounds

/-- `findSymbol(atIndex:)`. -/
def findSymbolAt (t : SymbolTable) (index : Nat) : Run SymbolTableEntry := guardLet t.models[index]?

end SymbolTable

/-- `IndirectSymbolTableEntry`. -/
structure IndirectSymbolTableEntry where
  isSymbolLocal : Bool
  isSymbolAbsolute : Bool
  symbolTableIndex : Field UInt32
  deriving DecidableEq

/-- `findIndirectSymbol(atIndex:)`. -/
def findIndirectSymbol (models : List IndirectSymbolTableEntry) (index : Nat) :
    Run IndirectSymbolTableEntry :=
  guardLet models[index]?

/-- A `CStringSectionComponent` as `LiteralPointerComponent` sees it. -/
structure CStringSection where
  baseVirtualAddress : UInt64
  dataSize : Nat
  cStrings : CStrings

/-- `CStringSectionComponent.findString(virtualAddress:)`. -/
def CStringSection.findString (c : CStringSection) (virtualAddress : UInt64) :
    Run (Option String) :=
  c.cStrings.findStringAt c.baseVirtualAddress c.dataSize virtualAddress

/-- What a component reads through `macho`. -/
structure MachoView where
  stringTable : Option CStrings
  symbolTable : Option SymbolTable
  indirectSymbolTable : Option (List IndirectSymbolTableEntry)
  cStringSections : List CStringSection
  sectionHeaders : List SectionHeader
  /-- the data of `textConstComponent` -/
  textConst : Option Data

/-- The view of a file without any of them. -/
def MachoView.empty : MachoView := ⟨none, none, none, [], [], none⟩

/-- `macho.stringTable?.findString(atDataOffset:)`. -/
def MachoView.findString (v : MachoView) (offset : Nat) : Run (Option String) :=
  match v.stringTable with
  | some t => t.findString offset
  | none => .ok none

/-- `macho?.symbolTable?.findSymbol(atIndex:).symbolName`. -/
def MachoView.symbolName (v : MachoView) (index : Nat) : Run (Option String) :=
  match v.symbolTable with
  | some t => do return some (← t.findSymbolAt index).symbolName
  | none => .ok none

end Mocha
