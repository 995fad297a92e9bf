import Mocha.LoadCommand.Segment

/-!
# Load commands of a fixed size

`LCMinOSVersion`, `LCSymbolTable`, `LCDynamicSymbolTable`, `LCUUID`, `LCSourceVersion`,
`LCLinkedITData`, `LCMain`, `LCDyldInfo` and `LCEncryptionInfo`, each with its initializer and its
`commandTranslations` in the order of the source. The reader and the display list of a class are
written separately there, and separately here.

For each class `…_init_eq_ok` is what the initializer computes: it returns exactly on enough data,
and each field is the number at its offset. `…_shown` compares the display list with it. The list
of `LCMain` is the odd one out: both of its entries show the entry offset, so no `…_shown` holds of
it; `main_bytesCounts` says that its byte counts still add up.
-/

namespace Mocha

open Lib DataShifter

/-! ## Version words -/

/-- `LCMinOSVersion`. -/
structure LCMinOSVersion where
  osVersion : Field String
  sdkVersion : Field String
  deriving DecidableEq

/-- `LCMinOSVersion(with:data:)`. -/
def LCMinOSVersion.init (data : Data) : Run LCMinOSVersion := do
  let osVersion ← (← data.subSequence 8 4).uint32
  let sdkVersion ← (← data.subSequence 12 4).uint32
  return { osVersion := osVersion.map versionString, sdkVersion := sdkVersion.map versionString }

/-- `LCMinOSVersion.osName(for:)`. -/
def LCMinOSVersion.osName : LoadCommandType → Run String
  | .iOSMinVersion => .ok "iOS"
  | .macOSMinVersion => .ok "macOS"
  | .tvOSMinVersion => .ok "tvOS"
  | .watchOSMinVersion => .ok "watchOS"
  | _ => fatalError

/-- `LCMinOSVersion.commandTranslations`. -/
def LCMinOSVersion.commandTranslations (type : LoadCommandType) (c : LCMinOSVersion) :
    Run (List GeneralTranslation) := do
  let os ← osName type
  return [c.osVersion.translation ("Required min " ++ os ++ " version") c.osVersion.value 4
      .versionString,
    c.sdkVersion.translation ("Required min " ++ os ++ " SDK version") c.sdkVersion.value 4
      .versionString]

/-- `LCSourceVersion.versionString(from:)`: `A.B.C.D.E` packed as `a24.b10.c10.d10.e10`. -/
def sourceVersionString (v : UInt64) : String :=
  let mask : UInt64 := 0x3ff
  joined "." [decimal (v >>> 40).toNat, decimal ((v >>> 30) &&& mask).toNat,
    decimal ((v >>> 20) &&& mask).toNat, decimal ((v >>> 10) &&& mask).toNat,
    decimal (v &&& mask).toNat]

/-- `LCSourceVersion`. -/
structure LCSourceVersion where
  version : Field String
  deriving DecidableEq

/-- `LCSourceVersion(with:data:)`. -/
def LCSourceVersion.init (data : Data) : Run LCSourceVersion := do
  let version ← (← data.subSequence 8 8).uint64
  return { version := version.map sourceVersionString }

/-- `LCSourceVersion.commandTranslations`. -/
def LCSourceVersion.commandTranslations (c : LCSourceVersion) : List GeneralTranslation :=
  [c.version.translation "Source Version" c.version.value 8 .versionString]

/-! ## Tables of words -/

/-- `LCSymbolTable`. -/
structure LCSymbolTable where
  symbolTableOffset : Field UInt32
  numberOfSymbolTableEntries : Field UInt32
  stringTableOffset : Field UInt32
  sizeOfStringTable : Field UInt32
  deriving DecidableEq

/-- `LCSymbolTable(with:data:)`. -/
def LCSymbolTable.init (data : Data) : Run LCSymbolTable := do
  let s := (DataShifter.init data).skip .quadWords
  let (symbolTableOffset, s) ← s.shiftUInt32
  let (numberOfSymbolTableEntries, s) ← s.shiftUInt32
  let (stringTableOffset, s) ← s.shiftUInt32
  let (sizeOfStringTable, _) ← s.shiftUInt32
  return { symbolTableOffset, numberOfSymbolTableEntries, stringTableOffset, sizeOfStringTable }

/-- A word shown in hexadecimal. -/
def Field.hexWord (f : Field UInt32) (definition : String) : GeneralTranslation :=
  f.translation definition (hex f.value.toNat) 4 .uint32

/-- A word shown in decimal. -/
def Field.decimalWord (f : Field UInt32) (definition : String) : GeneralTranslation :=
  f.translation definition (decimal f.value.toNat) 4 .uint32

/-- `LCSymbolTable.commandTranslations`. -/
def LCSymbolTable.commandTranslations (c : LCSymbolTable) : List GeneralTranslation :=
  [c.symbolTableOffset.hexWord "Symbol table offset",
   c.numberOfSymbolTableEntries.decimalWord "Number of entries",
   c.stringTableOffset.hexWord "String table offset",
   c.sizeOfStringTable.hexWord "Size of string table"]

/-- `LCDynamicSymbolTable`. -/
structure LCDynamicSymbolTable where
  ilocalsym : Field UInt32
  nlocalsym : Field UInt32
  iextdefsym : Field UInt32
  nextdefsym : Field UInt32
  iundefsym : Field UInt32
  nundefsym : Field UInt32
  tocoff : Field UInt32
  ntoc : Field UInt32
  modtaboff : Field UInt32
  nmodtab : Field UInt32
  extrefsymoff : Field UInt32
  nextrefsyms : Field UInt32
  indirectsymoff : Field UInt32
  nindirectsyms : Field UInt32
  extreloff : Field UInt32
  nextrel : Field UInt32
  locreloff : Field UInt32
  nlocrel : Field UInt32
  deriving DecidableEq

/-- `LCDynamicSymbolTable(with:data:)`. -/
def LCDynamicSymbolTable.init (data : Data) : Run LCDynamicSymbolTable := do
  let s := (DataShifter.init data).skip .quadWords
  let (ilocalsym, s) ← s.shiftUInt32
  let (nlocalsym, s) ← s.shiftUInt32
  let (iextdefsym, s) ← s.shiftUInt32
  let (nextdefsym, s) ← s.shiftUInt32
  let (iundefsym, s) ← s.shiftUInt32
  let (nundefsym, s) ← s.shiftUInt32
  let (tocoff, s) ← s.shiftUInt32
  let (ntoc, s) ← s.shiftUInt32
  let (modtaboff, s) ← s.shiftUInt32
  let (nmodtab, s) ← s.shiftUInt32
  let (extrefsymoff, s) ← s.shiftUInt32
  let (nextrefsyms, s) ← s.shiftUInt32
  let (indirectsymoff, s) ← s.shiftUInt32
  let (nindirectsyms, s) ← s.shiftUInt32
  let (extreloff, s) ← s.shiftUInt32
  let (nextrel, s) ← s.shiftUInt32
  let (locreloff, s) ← s.shiftUInt32
  let (nlocrel, _) ← s.shiftUInt32
  return {
    ilocalsym, nlocalsym, iextdefsym, nextdefsym, iundefsym, nundefsym, tocoff, ntoc, modtaboff,
    nmodtab, extrefsymoff, nextrefsyms, indirectsymoff, nindirectsyms, extreloff, nextrel,
    locreloff, nlocrel }

/-- `LCDynamicSymbolTable.commandTranslations`. -/
def LCDynamicSymbolTable.commandTranslations (c : LCDynamicSymbolTable) :
    List GeneralTranslation :=
  [c.ilocalsym.decimalWord "Start Index of Local Symbols ",
   c.nlocalsym.decimalWord "Number of Local Symbols ",
   c.iextdefsym.decimalWord "Start Index of External Defined Symbols ",
   c.nextdefsym.decimalWord "Number of External Defined Symbols ",
   c.iundefsym.decimalWord "Start Index of Undefined Symbols ",
   c.nundefsym.decimalWord "Number of Undefined Symbols ",
   c.tocoff.hexWord "file offset to table of contents ",
   c.ntoc.decimalWord "number of entries in table of contents ",
   c.modtaboff.hexWord "file offset to module table ",
   c.nmodtab.decimalWord "number of module table entries ",
   c.extrefsymoff.hexWord "offset to referenced symbol table ",
   c.nextrefsyms.decimalWord "number of referenced symbol table entries ",
   c.indirectsymoff.hexWord "file offset to the indirect symbol table ",
   c.nindirectsyms.decimalWord "number of indirect symbol table entries ",
   c.extreloff.hexWord "offset to external relocation entries ",
   c.nextrel.decimalWord "number of external relocation entries ",
   c.locreloff.hexWord "offset to local relocation entries ",
   c.nlocrel.decimalWord "number of local relocation entries "]

/-- `LCDyldInfo`. -/
structure LCDyldInfo where
  rebaseOffset : Field UInt32
  rebaseSize : Field UInt32
  bindOffset : Field UInt32
  bindSize : Field UInt32
  weakBindOffset : Field UInt32
  weakBindSize : Field UInt32
  lazyBindOffset : Field UInt32
  lazyBindSize : Field UInt32
  exportOffset : Field UInt32
  exportSize : Field UInt32
  deriving DecidableEq

/-- `LCDyldInfo(with:data:)`. -/
def LCDyldInfo.init (data : Data) : Run LCDyldInfo := do
  let s := (DataShifter.init data).skip .quadWords
  let (rebaseOffset, s) ← s.shiftUInt32
  let (rebaseSize, s) ← s.shiftUInt32
  let (bindOffset, s) ← s.shiftUInt32
  let (bindSize, s) ← s.shiftUInt32
  let (weakBindOffset, s) ← s.shiftUInt32
  let (weakBindSize, s) ← s.shiftUInt32
  let (lazyBindOffset, s) ← s.shiftUInt32
  let (lazyBindSize, s) ← s.shiftUInt32
  let (exportOffset, s) ← s.shiftUInt32
  let (exportSize, _) ← s.shiftUInt32
  return {
    rebaseOffset, rebaseSize, bindOffset, bindSize, weakBindOffset, weakBindSize, lazyBindOffset,
    lazyBindSize, exportOffset, exportSize }

/-- `LCDyldInfo.commandTranslations`. -/
def LCDyldInfo.commandTranslations (c : LCDyldInfo) : List GeneralTranslation :=
  [c.rebaseOffset.hexWord "Rebase Info File Offset",
   c.rebaseSize.hexWord "Rebase Info Size",
   c.bindOffset.hexWord "Binding Info File Offset",
   c.bindSize.hexWord "Binding Info Size",
   c.weakBindOffset.hexWord "Weak Binding Info File Offset",
   c.weakBindSize.hexWord "Weak Binding Info Size",
   c.lazyBindOffset.hexWord "Lazy Binding Info File Offset",
   c.lazyBindSize.hexWord "Lazy Binding Info Size",
   c.exportOffset.hexWord "Export Info File Offset",
   c.exportSize.hexWord "Export Info Size"]

/-- `LCEncryptionInfo`. -/
structure LCEncryptionInfo where
  cryptoOffset : Field UInt32
  cryptoSize : Field UInt32
  cryptoID : Field UInt32
  pad : Option (Field UInt32)
  deriving DecidableEq

/-- `LCEncryptionInfo(with:data:)`. -/
def LCEncryptionInfo.init (type : LoadCommandType) (data : Data) : Run LCEncryptionInfo := do
  let s := (DataShifter.init data).skip .quadWords
  let (cryptoOffset, s) ← s.shiftUInt32
  let (cryptoSize, s) ← s.shiftUInt32
  let (cryptoID, s) ← s.shiftUInt32
  let pad ← if type == .encryptionInfo64 then (do let (p, _) ← s.shiftUInt32; return some p)
    else pure none
  return { cryptoOffset, cryptoSize, cryptoID, pad }

/-- `LCEncryptionInfo.commandTranslations`. -/
def LCEncryptionInfo.commandTranslations (c : LCEncryptionInfo) : List GeneralTranslation :=
  [c.cryptoOffset.hexWord "Crypto File Offset", c.cryptoSize.hexWord "Crypto File Size",
   c.cryptoID.decimalWord "Crypto ID"] ++ c.pad.toList.map fun p => p.decimalWord "Crypto Pad"

/-- `LCLinkedITData`. -/
structure LCLinkedITData where
  containedDataFileOffset : Field UInt32
  containedDataSize : Field UInt32
  deriving DecidableEq

/-- `LCLinkedITData(with:data:)`. -/
def LCLinkedITData.init (data : Data) : Run LCLinkedITData := do
  let containedDataFileOffset ← (← data.subSequence 8 4).uint32
  let containedDataSize ← (← data.subSequence 12 4).uint32
  return { containedDataFileOffset, containedDataSize }

/-- `LCLinkedITData.commandTranslations`. -/
def LCLinkedITData.commandTranslations (c : LCLinkedITData) : List GeneralTranslation :=
  [c.containedDataFileOffset.hexWord "File Offset", c.containedDataSize.hexWord "Size"]

/-- `LCLinkedITData.dataName`. -/
def LCLinkedITData.dataName : LoadCommandType → Run String
  | .dataInCode => .ok "Data in Code"
  | .codeSignature => .ok "Code Signature"
  | .functionStarts => .ok "Function Starts"
  | .segmentSplitInfo => .ok "Segment Split Info"
  | .dylibCodeSigDRs => .ok "Dylib Code SigDRs"
  | .linkerOptimizationHint => .ok "Linker Opt Hint"
  | .dyldExportsTrie => .ok "Export Info (LC)"
  | .dyldChainedFixups => .ok "Dyld Chained Fixups"
  | _ => fatalError

/-! ## The entry point and the UUID -/

/-- `LCMain`. -/
structure LCMain where
  entryOffset : Field UInt64
  stackSize : Field UInt64
  deriving DecidableEq

/-- `LCMain(with:data:)`. -/
def LCMain.init (data : Data) : Run LCMain := do
  let entryOffset ← (← data.subSequence 8 8).uint64
  let stackSize ← (← data.subSequence 16 8).uint64
  return { entryOffset, stackSize }

/-- `LCMain.commandTranslations`: the entry offset, twice. -/
def LCMain.commandTranslations (c : LCMain) : List GeneralTranslation :=
  [c.entryOffset.translation "Entry Offset (relative to __TEXT)" (hex c.entryOffset.value.toNat) 8
     .uint64,
   c.entryOffset.translation "Entry Offset (relative to __TEXT)" (hex c.entryOffset.value.toNat) 8
     .uint64]

/-- `LCUUID`: the sixteen bytes of the `UUID` value. -/
structure LCUUID where
  uuid : Field (List UInt8)
  deriving DecidableEq

/-- `LCUUID.uuid(from:)`, which indexes the array up to 15. -/
def LCUUID.uuidFrom (uuidData : List UInt8) : Run (List UInt8) :=
  if 16 ≤ uuidData.length then .ok (uuidData.take 16) else .error .outOfBounds

/-- `LCUUID(with:data:)`. -/
def LCUUID.init (data : Data) : Run LCUUID := do
  let d ← data.subSequence 8 16
  let uuid ← uuidFrom d.bytes
  return { uuid := ⟨uuid, d.span⟩ }

/-- Two upper-case hexadecimal digits. -/
def hexByte (b : UInt8) : String :=
  String.ofList [(Nat.digitChar (b.toNat / 16)).toUpper, (Nat.digitChar (b.toNat % 16)).toUpper]

/-- `uuid.uuidString`. -/
def uuidString (u : List UInt8) : String :=
  let part (k n : Nat) := joined "" (((u.drop k).take n).map hexByte)
  joined "-" [part 0 4, part 4 2, part 6 2, part 8 2, part 10 6]

/-- `LCUUID.commandTranslations`. -/
def LCUUID.commandTranslations (c : LCUUID) : List GeneralTranslation :=
  [c.uuid.translation "UUID" (uuidString c.uuid.value) 16 .rawData]

/-! ## What the initializers compute -/

section Init

variable {d : Data}

theorem minOSVersion_init_eq_ok {c : LCMinOSVersion} :
    LCMinOSVersion.init d = .ok c ↔ 16 ≤ d.count ∧
      LCMinOSVersion.mk ((d.uint32At 8).map versionString) ((d.uint32At 12).map versionString) =
        c := by
  unfold LCMinOSVersion.init
  simp (disch := decide) only [Data.subSequence_uint32_bind, pure_eq_ok, Except.ok.injEq,
    Nat.reduceAdd, le_absorb]

theorem sourceVersion_init_eq_ok {c : LCSourceVersion} :
    LCSourceVersion.init d = .ok c ↔
      16 ≤ d.count ∧ LCSourceVersion.mk ((d.uint64At 8).map sourceVersionString) = c := by
  unfold LCSourceVersion.init
  simp only [Data.subSequence_uint64_bind, pure_eq_ok, Except.ok.injEq, Nat.reduceAdd]

theorem symbolTable_init_eq_ok {c : LCSymbolTable} :
    LCSymbolTable.init d = .ok c ↔ 24 ≤ d.count ∧
      LCSymbolTable.mk (d.uint32At 8) (d.uint32At 12) (d.uint32At 16) (d.uint32At 20) = c := by
  unfold LCSymbolTable.init
  simp (disch := decide) only [init_eq, skip_quadWords, shiftUInt32_bind, pure_eq_ok,
    Except.ok.injEq, Nat.reduceAdd, Nat.zero_add, le_absorb]

theorem dynamicSymbolTable_init_eq_ok {c : LCDynamicSymbolTable} :
    LCDynamicSymbolTable.init d = .ok c ↔ 80 ≤ d.count ∧
      LCDynamicSymbolTable.mk (d.uint32At 8) (d.uint32At 12) (d.uint32At 16) (d.uint32At 20)
        (d.uint32At 24) (d.uint32At 28) (d.uint32At 32) (d.uint32At 36) (d.uint32At 40)
        (d.uint32At 44) (d.uint32At 48) (d.uint32At 52) (d.uint32At 56) (d.uint32At 60)
        (d.uint32At 64) (d.uint32At 68) (d.uint32At 72) (d.uint32At 76) = c := by
  unfold LCDynamicSymbolTable.init
  simp (disch := decide) only [init_eq, skip_quadWords, shiftUInt32_bind, pure_eq_ok,
    Except.ok.injEq, Nat.reduceAdd, Nat.zero_add, le_absorb]

theorem dyldInfo_init_eq_ok {c : LCDyldInfo} :
    LCDyldInfo.init d = .ok c ↔ 48 ≤ d.count ∧
      LCDyldInfo.mk (d.uint32At 8) (d.uint32At 12) (d.uint32At 16) (d.uint32At 20)
        (d.uint32At 24) (d.uint32At 28) (d.uint32At 32) (d.uint32At 36) (d.uint32At 40)
        (d.uint32At 44) = c := by
  unfold LCDyldInfo.init
  simp (disch := decide) only [init_eq, skip_quadWords, shiftUInt32_bind, pure_eq_ok,
    Except.ok.injEq, Nat.reduceAdd, Nat.zero_add, le_absorb]

/-- The size of an encryption command: 20 bytes, or 24 for 64-bit. -/
def encryptionInfoSize (is64Bit : Bool) : Nat := if is64Bit then 24 else 20

theorem encryptionInfo_init_eq_ok {type : LoadCommandType} {c : LCEncryptionInfo} :
    LCEncryptionInfo.init type d = .ok c ↔
      encryptionInfoSize (type == .encryptionInfo64) ≤ d.count ∧
        LCEncryptionInfo.mk (d.uint32At 8) (d.uint32At 12) (d.uint32At 16)
          (if type == .encryptionInfo64 then some (d.uint32At 20) else none) = c := by
  unfold LCEncryptionInfo.init encryptionInfoSize
  cases (type == LoadCommandType.encryptionInfo64) <;>
    simp (disch := decide) only [init_eq, skip_quadWords, shiftUInt32_bind, pure_eq_ok, bind_assoc,
      ok_bind, Except.ok.injEq, Nat.reduceAdd, Nat.zero_add, Bool.false_eq_true, reduceIte,
      le_absorb]

theorem linkedITData_init_eq_ok {c : LCLinkedITData} :
    LCLinkedITData.init d = .ok c ↔
      16 ≤ d.count ∧ LCLinkedITData.mk (d.uint32At 8) (d.uint32At 12) = c := by
  unfold LCLinkedITData.init
  simp (disch := decide) only [Data.subSequence_uint32_bind, pure_eq_ok, Except.ok.injEq,
    Nat.reduceAdd, le_absorb]

theorem main_init_eq_ok {c : LCMain} :
    LCMain.init d = .ok c ↔ 24 ≤ d.count ∧ LCMain.mk (d.uint64At 8) (d.uint64At 16) = c := by
  unfold LCMain.init
  simp (disch := decide) only [Data.subSequence_uint64_bind, pure_eq_ok, Except.ok.injEq,
    Nat.reduceAdd, le_absorb]

theorem uuid_init_eq_ok {c : LCUUID} :
    LCUUID.init d = .ok c ↔ 24 ≤ d.count ∧
      LCUUID.mk ⟨(d.window 8 16).bytes, Span.of (d.startIndex + 8) 16⟩ = c := by
  unfold LCUUID.init LCUUID.uuidFrom
  simp only [bind_eq_ok, Data.subSequence_eq_ok]
  constructor
  · rintro ⟨_, ⟨-, hle, rfl⟩, uuid, huuid, h⟩
    have hlen : (d.window 8 16).bytes.length = 16 := d.window_count hle
    rw [if_pos hlen.ge, List.take_of_length_le hlen.le] at huuid
    rw [Data.window_span d hle] at h
    cases huuid
    cases h
    exact ⟨hle, rfl⟩
  · rintro ⟨hle, rfl⟩
    have hlen : (d.window 8 16).bytes.length = 16 := d.window_count hle
    refine ⟨_, ⟨by decide, hle, rfl⟩, (d.window 8 16).bytes, ?_, ?_⟩
    · rw [if_pos hlen.ge, List.take_of_length_le hlen.le]
    · rw [Data.window_span d hle]
      rfl

end Init

/-! ## What the display lists show -/

section Lists

variable {d : Data}

@[simp] theorem hexWord_shows (f : Field UInt32) (s : String) : (f.hexWord s).shows = f.span := rfl

@[simp] theorem hexWord_bytesCount (f : Field UInt32) (s : String) :
    (f.hexWord s).bytesCount = 4 := rfl

@[simp] theorem decimalWord_shows (f : Field UInt32) (s : String) :
    (f.decimalWord s).shows = f.span := rfl

@[simp] theorem decimalWord_bytesCount (f : Field UInt32) (s : String) :
    (f.decimalWord s).bytesCount = 4 := rfl

theorem minOSVersion_shown {c : LCMinOSVersion} {type : LoadCommandType}
    {ts : List GeneralTranslation} (h : LCMinOSVersion.init d = .ok c)
    (ht : c.commandTranslations type = .ok ts) :
    Shown (d.startIndex + 8) (d.startIndex + 16) ts := by
  obtain ⟨_, rfl⟩ := minOSVersion_init_eq_ok.mp h
  unfold LCMinOSVersion.commandTranslations at ht
  rw [bind_eq_ok] at ht
  obtain ⟨os, _, hts⟩ := ht
  cases hts
  simp [Shown, Nat.add_assoc]

theorem sourceVersion_shown {c : LCSourceVersion} (h : LCSourceVersion.init d = .ok c) :
    Shown (d.startIndex + 8) (d.startIndex + 16) c.commandTranslations := by
  obtain ⟨_, rfl⟩ := sourceVersion_init_eq_ok.mp h
  simp [LCSourceVersion.commandTranslations, Shown, Nat.add_assoc]

theorem symbolTable_shown {c : LCSymbolTable} (h : LCSymbolTable.init d = .ok c) :
    Shown (d.startIndex + 8) (d.startIndex + 24) c.commandTranslations := by
  obtain ⟨_, rfl⟩ := symbolTable_init_eq_ok.mp h
  simp [LCSymbolTable.commandTranslations, Shown, Nat.add_assoc]

theorem dynamicSymbolTable_shown {c : LCDynamicSymbolTable}
    (h : LCDynamicSymbolTable.init d = .ok c) :
    Shown (d.startIndex + 8) (d.startIndex + 80) c.commandTranslations := by
  obtain ⟨_, rfl⟩ := dynamicSymbolTable_init_eq_ok.mp h
  simp [LCDynamicSymbolTable.commandTranslations, Shown, Nat.add_assoc]

theorem dyldInfo_shown {c : LCDyldInfo} (h : LCDyldInfo.init d = .ok c) :
    Shown (d.startIndex + 8) (d.startIndex + 48) c.commandTranslations := by
  obtain ⟨_, rfl⟩ := dyldInfo_init_eq_ok.mp h
  simp [LCDyldInfo.commandTranslations, Shown, Nat.add_assoc]

theorem encryptionInfo_shown {c : LCEncryptionInfo} {type : LoadCommandType}
    (h : LCEncryptionInfo.init type d = .ok c) :
    Shown (d.startIndex + 8) (d.startIndex + encryptionInfoSize (type == .encryptionInfo64))
      c.commandTranslations := by
  obtain ⟨_, rfl⟩ := encryptionInfo_init_eq_ok.mp h
  cases (type == LoadCommandType.encryptionInfo64) <;>
    simp [LCEncryptionInfo.commandTranslations, encryptionInfoSize, Shown, Nat.add_assoc]

theorem linkedITData_shown {c : LCLinkedITData} (h : LCLinkedITData.init d = .ok c) :
    Shown (d.startIndex + 8) (d.startIndex + 16) c.commandTranslations := by
  obtain ⟨_, rfl⟩ := linkedITData_init_eq_ok.mp h
  simp [LCLinkedITData.commandTranslations, Shown, Nat.add_assoc]

theorem uuid_shown {c : LCUUID} (h : LCUUID.init d = .ok c) :
    Shown (d.startIndex + 8) (d.startIndex + 24) c.commandTranslations := by
  obtain ⟨_, rfl⟩ := uuid_init_eq_ok.mp h
  simp [LCUUID.commandTranslations, Shown, Nat.add_assoc]

theorem main_bytesCounts (c : LCMain) :
    (c.commandTranslations.map GeneralTranslation.bytesCount).sum = 16 := rfl

end Lists

end Mocha
