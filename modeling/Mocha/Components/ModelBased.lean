import Mocha.Components.Symbols

/-!
# Tables of fixed-size records (`ModelBasedComponent/`)

`ModelBasedComponent` cuts its data into records of `modelSize` bytes and decodes each with the
`InterpretableModel` it is instantiated at: `SymbolTableEntry`, `IndirectSymbolTableEntry` or
`DataInCodeModel`. A remainder shorter than a record is ignored.

`LawfulModel` is what the ranges of such a component need from its model: the translations of a
record show the bytes of the record. **`models_shown`** derives the ranges of the whole table from
it, whatever the two moments at which the records were decoded and shown could see of the file.
-/

namespace Mocha

open Lib Data DataShifter

/-- `InterpretableModel`. -/
class InterpretableModel (Model : Type) where
  /-- `init(with:is64Bit:macho:)` -/
  init : Bool → MachoView → Data → Run Model
  /-- `translations` -/
  translations : MachoView → Model → Run (List GeneralTranslation)
  modelSizeFor64Bit : Nat
  modelSizeFor32Bit : Nat

section Component

variable (Model : Type) [InterpretableModel Model]

/-- `modelSize`. -/
def modelSize (is64Bit : Bool) : Nat :=
  if is64Bit then InterpretableModel.modelSizeFor64Bit Model
  else InterpretableModel.modelSizeFor32Bit Model

/-- `runInitializing()`. -/
def initModels (is64Bit : Bool) (v : MachoView) (d : Data) : Run (List Model) :=
  let size := modelSize Model is64Bit
  (List.range (d.count / size)).mapM fun index => do
    let modelData ← d.subSequence (index * size) size
    InterpretableModel.init is64Bit v modelData

variable {Model}

/-- `runTranslating()`. -/
def translateModels (v : MachoView) (models : List Model) : Run (List TranslationGroup) :=
  models.mapM (InterpretableModel.translations v)

end Component

/-! ## `SymbolTableEntry` -/

/-- `flagsFrom(nDesc:symbolType:)`. -/
def symbolFlags (nDesc : UInt16) (symbolType : SymbolType) : List String :=
  let undefinedFlags := if symbolType = .undefined ∨ symbolType = .preBound then
      (([(0, "REFERENCE_FLAG_UNDEFINED_NON_LAZY"), (1, "REFERENCE_FLAG_UNDEFINED_LAZY"),
        (2, "REFERENCE_FLAG_DEFINED"), (3, "REFERENCE_FLAG_PRIVATE_DEFINED"),
        (4, "REFERENCE_FLAG_PRIVATE_UNDEFINED_NON_LAZY"),
        (5, "REFERENCE_FLAG_PRIVATE_UNDEFINED_LAZY")] : List (UInt16 × String)).lookup
          (nDesc &&& 0x7)).toList ++
      (([(0x0, "SELF_LIBRARY_ORDINAL"), (0xfd, "MAX_LIBRARY_ORDINAL"),
        (0xfe, "DYNAMIC_LOOKUP_ORDINAL"), (0xff, "EXECUTABLE_ORDINAL")] :
          List (UInt16 × String)).lookup ((nDesc >>> 8) &&& 0xff)).toList
    else []
  let bit (mask : UInt16) (name : String) : List String :=
    if nDesc &&& mask != 0 then [name] else []
  let flags := undefinedFlags ++ bit 0x0010 "REFERENCED_DYNAMICALLY" ++
    bit 0x0020 "N_NO_DEAD_STRIP" ++ bit 0x0040 "N_WEAK_REF" ++
    (if symbolType = .undefined then bit 0x0080 "N_REF_TO_WEAK"
      else bit 0x0080 "N_WEAK_DEF" ++ bit 0x0100 "N_SYMBOL_RESOLVER") ++
    bit 0x0008 "N_ARM_THUMB_DEF"
  if flags.isEmpty then ["NONE"] else flags

namespace SymbolTableEntry

/-- The name of an entry: only a stab symbol may lack one. -/
def name (symbolType : SymbolType) (v : MachoView) (index : Nat) : Run String := do
  let foundName ← v.findString index
  match symbolType with
  | .stab _ => return foundName.getD "Not found"
  | _ => guardLet foundName

/-- `SymbolTableEntry(with:is64Bit:macho:)`. -/
def init (is64Bit : Bool) (v : MachoView) (data : Data) : Run SymbolTableEntry := do
  let s := DataShifter.init data
  let (indexInStringTable, s) ← s.shiftUInt32
  let (nType, s) ← s.shiftUInt8
  let symbolType ← SymbolType.init nType.value
  let (nSect, s) ← s.shiftUInt8
  let (nDesc, s) ← s.shiftUInt16
  let (nValue, _) ← s.shiftAddress is64Bit
  let symbolName ← name symbolType v indexInStringTable.value.toNat
  return {
    is64Bit := is64Bit
    indexInStringTable := indexInStringTable
    symbolName := symbolName
    symbolType := nType.map fun _ => symbolType
    isPrivateExternalSymbol := nType.value &&& 0x10 != 0
    isExternalSymbol := nType.value &&& 0x01 != 0
    nSect := nSect
    nDesc := nDesc
    nValue := nValue }

/-- What `translations` says about the type: the section of a `.section` symbol is looked up by its
ordinal, which starts from 1. -/
def typeExplanation (e : SymbolTableEntry) (v : MachoView) : Run String :=
  match e.symbolType.value with
  | .section_ =>
    if e.nSect.value = 0 then .error .outOfBounds
    else match v.sectionHeaders[e.nSect.value.toNat - 1]? with
      | some h => .ok (SymbolType.section_.readable ++
          (h.segment.value ++ "," ++ h.section_.value ++ " (N_SECT)"))
      | none => .error .outOfBounds
  | type => .ok type.readable

/-- What `translations` says about the section ordinal. -/
def sectExplanation (e : SymbolTableEntry) : String :=
  match e.symbolType.value with
  | .undefined | .absolute => "0 (NO_SECT)"
  | _ => decimal e.nSect.value.toNat

/-- What `translations` says about the value: description, explanation and the referred string. -/
def valueExplanation (e : SymbolTableEntry) (v : MachoView) :
    Run (String × String × Option String × Option String) :=
  match e.symbolType.value with
  | .indirect => do
    let offset ← intOf e.nValue.value
    let referred ← v.findString offset
    return ("String table offset", hex e.nValue.value.toNat, some "Referred string", referred)
  | _ => .ok ("Value", decimal e.nValue.value.toNat, none, none)

/-- `translations`. -/
def translations (v : MachoView) (e : SymbolTableEntry) : Run (List GeneralTranslation) := do
  let symbolTypeExplanation ← e.typeExplanation v
  let (nValueDesp, nValueExplanation, nValueExtraDesp, nValueExtraExplanation) ←
    e.valueExplanation v
  return [
    (e.indexInStringTable.translation "String Table Offset" (hex e.indexInStringTable.value.toNat)
      4 .uint32).extra (some "Symbol Name from String Table") (some e.symbolName),
    e.symbolType.translation "Symbol Type"
      (symbolTypeExplanation ++ " (Private External:" ++ toString e.isPrivateExternalSymbol ++
        ", External:" ++ toString e.isExternalSymbol) 1 .numberEnum,
    e.nSect.translation "Section Ordinal" e.sectExplanation 1 .uint8,
    e.nDesc.translation "Descriptions"
      (joined "\n" (symbolFlags e.nDesc.value e.symbolType.value)) 2 .flags,
    (e.nValue.translation nValueDesp nValueExplanation (addressSize e.is64Bit)
      (addressType e.is64Bit)).extra nValueExtraDesp nValueExtraExplanation]

instance : InterpretableModel SymbolTableEntry where
  init := init
  translations := translations
  modelSizeFor64Bit := 16
  modelSizeFor32Bit := 12

end SymbolTableEntry

/-- `SymbolTable.runInitializing()`. -/
def SymbolTable.runInitializing (is64Bit : Bool) (v : MachoView) (d : Data) : Run SymbolTable := do
  return SymbolTable.ofModels (← initModels SymbolTableEntry is64Bit v d)

/-! ## `IndirectSymbolTableEntry` -/

namespace IndirectSymbolTableEntry

/-- `IndirectSymbolTableEntry(with:is64Bit:macho:)`. -/
def init (data : Data) : Run IndirectSymbolTableEntry := do
  let symbolTableIndex ← data.uint32
  return {
    isSymbolLocal := symbolTableIndex.value &&& 0x80000000 != 0
    isSymbolAbsolute := symbolTableIndex.value &&& 0x40000000 != 0
    symbolTableIndex := symbolTableIndex }

/-- `translations`. -/
def translations (v : MachoView) (e : IndirectSymbolTableEntry) :
    Run (List GeneralTranslation) := do
  if e.isSymbolLocal || e.isSymbolAbsolute then
    return [(e.symbolTableIndex.translation "Symbol Table Index"
      (hex e.symbolTableIndex.value.toNat) 4 .uint32).extra (some "Local Symbol")
        (some ("Local. Abosulte: " ++ toString e.isSymbolAbsolute))]
  else
    let symbolName ← v.symbolName e.symbolTableIndex.value.toNat
    return [(e.symbolTableIndex.translation "Symbol Table Index"
      (decimal e.symbolTableIndex.value.toNat) 4 .uint32).extra (some "Referrenced Symbol")
        symbolName]

instance : InterpretableModel IndirectSymbolTableEntry where
  init _ _ data := init data
  translations := translations
  modelSizeFor64Bit := 4
  modelSizeFor32Bit := 4

end IndirectSymbolTableEntry

/-! ## `DataInCodeModel` -/

/-- `DataInCodeKind`. -/
inductive DataInCodeKind where
  | data
  | jumpTable8
  | jumpTable16
  | jumpTable32
  | absJumpTable32
  deriving DecidableEq, Repr

/-- `DataInCodeKind(rawValue:)`. -/
def DataInCodeKind.ofRaw? (raw : UInt16) : Option DataInCodeKind :=
  ([(1, .data), (2, .jumpTable8), (3, .jumpTable16), (4, .jumpTable32), (5, .absJumpTable32)] :
    List (UInt16 × DataInCodeKind)).lookup raw

/-- `DataInCodeKind.name`. -/
def DataInCodeKind.name : DataInCodeKind → String
  | .data => "DICE_KIND_DATA"
  | .jumpTable8 => "DICE_KIND_JUMP_TABLE8"
  | .jumpTable16 => "DICE_KIND_JUMP_TABLE16"
  | .jumpTable32 => "DICE_KIND_JUMP_TABLE32"
  | .absJumpTable32 => "DICE_KIND_ABS_JUMP_TABLE32"

/-- `DataInCodeModel`. -/
structure DataInCodeModel where
  offset : Field UInt32
  length : Field UInt16
  kind : Field DataInCodeKind
  deriving DecidableEq

namespace DataInCodeModel

/-- `DataInCodeModel(with:is64Bit:macho:)`. -/
def init (data : Data) : Run DataInCodeModel := do
  let s := DataShifter.init data
  let (offset, s) ← s.shiftUInt32
  let (length, s) ← s.shiftUInt16
  let (kind, _) ← s.shiftUInt16
  let known ← unwrap (DataInCodeKind.ofRaw? kind.value)
  return ⟨offset, length, kind.map fun _ => known⟩

/-- `translations`. -/
def translations (m : DataInCodeModel) : List GeneralTranslation :=
  [m.offset.translation "File Offset" (hex m.offset.value.toNat) 4 .uint32,
   m.length.translation "Size" (decimal m.length.value.toNat) 2 .uint16,
   m.kind.translation "Kind" m.kind.value.name 2 .numberEnum]

instance : InterpretableModel DataInCodeModel where
  init _ _ data := init data
  translations _ m := .ok m.translations
  modelSizeFor64Bit := 8
  modelSizeFor32Bit := 8

end DataInCodeModel

/-! ## The records -/

/-- **Record `i` is decoded from the bytes at `i` times the record size.** -/
theorem initModels_getElem? {Model : Type} [InterpretableModel Model] {is64Bit : Bool} {v : MachoView}
    {d : Data} {models : List Model} (h : initModels Model is64Bit v d = .ok models) {i : Nat}
    (hpos : 0 < modelSize Model is64Bit) (hi : (i + 1) * modelSize Model is64Bit ≤ d.count) :
    ∃ r, models[i]? = some r ∧ InterpretableModel.init is64Bit v
      (d.window (i * modelSize Model is64Bit) (modelSize Model is64Bit)) = .ok r := by
  unfold initModels at h
  have hrecords := mapM_eq_ok.mp h
  have hlt : i < d.count / modelSize Model is64Bit := (Nat.le_div_iff_mul_le hpos).mpr hi
  have hlength := hrecords.length_eq
  rw [List.length_range] at hlength
  have hget := hrecords.get (by rwa [List.length_range]) (by rwa [← hlength])
  rw [List.get_eq_getElem, List.getElem_range, bind_eq_ok] at hget
  obtain ⟨modelData, hdata, hget⟩ := hget
  obtain ⟨-, -, rfl⟩ := subSequence_eq_ok.mp hdata
  exact ⟨_, List.getElem?_eq_getElem (by rwa [← hlength]), hget⟩

/-- An indirect symbol table entry is one word. -/
theorem indirectSymbol_init {d : Data} {k : Nat} {e : IndirectSymbolTableEntry} (hk : k + 4 ≤ d.count)
    (h : IndirectSymbolTableEntry.init (d.window k 4) = .ok e) :
    e = ⟨(d.uint32At k).value &&& 0x80000000 != 0, (d.uint32At k).value &&& 0x40000000 != 0,
      d.uint32At k⟩ := by
  unfold IndirectSymbolTableEntry.init at h
  rw [uint32_window hk] at h
  cases h
  rfl

/-! ## Ranges -/

/-- The translations of a record show the record. -/
class LawfulModel (Model : Type) [InterpretableModel Model] : Prop where
  shown : ∀ {is64Bit : Bool} {v w : MachoView} {d : Data} {m : Model}
    {ts : List GeneralTranslation}, d.count = modelSize Model is64Bit →
      InterpretableModel.init is64Bit v d = .ok m → InterpretableModel.translations w m = .ok ts →
      Shown d.startIndex d.endIndex ts

instance : LawfulModel DataInCodeModel where
  shown := by
    intro is64Bit v w d m ts hcount hinit hts
    cases hts
    have hsize : d.count = 8 := by
      rw [hcount]
      cases is64Bit <;> rfl
    change DataInCodeModel.init d = .ok m at hinit
    unfold DataInCodeModel.init at hinit
    simp (disch := decide) only [init_eq, shiftUInt32_bind, shiftUInt16_bind, unwrap_bind,
      Nat.reduceAdd, Nat.zero_add, le_absorb, pure_eq_ok, Except.ok.injEq] at hinit
    obtain ⟨_, kind, _, rfl⟩ := hinit
    simp [DataInCodeModel.translations, Shown, Data.endIndex, hsize, Nat.add_assoc]

instance : LawfulModel IndirectSymbolTableEntry where
  shown := by
    intro is64Bit v w d m ts hcount hinit hts
    have hsize : d.count = 4 := by
      rw [hcount]
      cases is64Bit <;> rfl
    change IndirectSymbolTableEntry.init d = .ok m at hinit
    change IndirectSymbolTableEntry.translations w m = .ok ts at hts
    unfold IndirectSymbolTableEntry.init at hinit
    rw [bind_eq_ok] at hinit
    obtain ⟨x, hx, hm⟩ := hinit
    cases hm
    have hspan : x.span = Span.of d.startIndex 4 := by
      rw [← d.window_all, hsize, uint32_window (by omega)] at hx
      cases hx
      rfl
    unfold IndirectSymbolTableEntry.translations at hts
    split at hts
    · cases hts
      simp [Shown, hspan, Data.endIndex, hsize]
    · rw [bind_eq_ok] at hts
      obtain ⟨symbolName, _, hts⟩ := hts
      cases hts
      simp [Shown, hspan, Data.endIndex, hsize]

/-- The entry in the bytes of an `nlist`, with its type and its name. -/
def SymbolTableEntry.layout (is64Bit : Bool) (d : Data) (type : SymbolType) (name : String) :
    SymbolTableEntry where
  is64Bit := is64Bit
  indexInStringTable := d.uint32At 0
  symbolName := name
  symbolType := (d.uint8At 4).map fun _ => type
  isPrivateExternalSymbol := (d.uint8At 4).value &&& 0x10 != 0
  isExternalSymbol := (d.uint8At 4).value &&& 0x01 != 0
  nSect := d.uint8At 5
  nDesc := d.uint16At 6
  nValue := addressAt is64Bit d 8

/-- **`SymbolTableEntry.init`**: every field is read where the layout of `nlist` has it. -/
theorem symbolTableEntry_init_eq_ok {is64Bit : Bool} {v : MachoView} {d : Data}
    {e : SymbolTableEntry} : SymbolTableEntry.init is64Bit v d = .ok e ↔
      8 + addressSize is64Bit ≤ d.count ∧
      ∃ type name, SymbolType.init (d.uint8At 4).value = .ok type ∧
        SymbolTableEntry.name type v (d.uint32At 0).value.toNat = .ok name ∧
        e = .layout is64Bit d type name := by
  unfold SymbolTableEntry.init
  simp only [init_eq, shiftUInt32_bind, shiftUInt8_bind, Nat.zero_add, Nat.reduceAdd]
  constructor
  · rintro ⟨_, _, h⟩
    rw [bind_eq_ok] at h
    obtain ⟨type, htype, h⟩ := h
    simp only [shiftUInt8_bind, shiftUInt16_bind, shiftAddress_bind, Nat.reduceAdd] at h
    obtain ⟨_, _, hle, h⟩ := h
    rw [bind_eq_ok] at h
    obtain ⟨name, hname, h⟩ := h
    cases h
    exact ⟨hle, type, name, htype, hname, rfl⟩
  · rintro ⟨hle, type, name, htype, hname, rfl⟩
    refine ⟨by omega, by omega, bind_eq_ok.mpr ⟨type, htype, ?_⟩⟩
    simp only [shiftUInt8_bind, shiftUInt16_bind, shiftAddress_bind, Nat.reduceAdd]
    exact ⟨by omega, by omega, hle, bind_eq_ok.mpr ⟨name, hname, rfl⟩⟩

instance : LawfulModel SymbolTableEntry where
  shown := by
    intro is64Bit v w d e ts hcount hinit hts
    have hsize : d.count = 8 + addressSize is64Bit := by
      rw [hcount]
      cases is64Bit <;> rfl
    obtain ⟨_, type, name, _, _, rfl⟩ := symbolTableEntry_init_eq_ok.mp hinit
    change SymbolTableEntry.translations w _ = .ok ts at hts
    unfold SymbolTableEntry.translations at hts
    rw [bind_eq_ok] at hts
    obtain ⟨explanation, _, hts⟩ := hts
    rw [bind_eq_ok] at hts
    obtain ⟨⟨desp, value, extraDesp, extra⟩, _, hts⟩ := hts
    cases hts
    simp [Shown, SymbolTableEntry.layout, Data.endIndex, hsize, Nat.add_assoc]

/-- **A table of records shows its data**, when the data is a whole number of records. -/
theorem models_shown {Model : Type} [InterpretableModel Model] [LawfulModel Model]
    {is64Bit : Bool} {v w : MachoView} {d : Data} {models : List Model}
    {gs : List TranslationGroup} (hwhole : d.count % modelSize Model is64Bit = 0)
    (hinit : initModels Model is64Bit v d = .ok models)
    (hgs : translateModels w models = .ok gs) : Shown d.startIndex d.endIndex gs.flatten := by
  have hrecords := mapM_then_mapM hinit hgs
  rw [List.range_eq_range'] at hrecords
  have hshown := shown_windows (a := d.startIndex) (w := modelSize Model is64Bit)
    (hrecords.imp ?_)
  · rwa [Nat.zero_mul, Nat.add_zero, Nat.zero_add,
      Nat.div_mul_cancel (Nat.dvd_of_mod_eq_zero hwhole)] at hshown
  · rintro i ts ⟨m, hm, hts⟩
    rw [bind_eq_ok] at hm
    obtain ⟨modelData, hdata, hm⟩ := hm
    obtain ⟨_, hle, rfl⟩ := subSequence_eq_ok.mp hdata
    have hrec := LawfulModel.shown (window_count d hle) hm hts
    rwa [Data.endIndex, window_count d hle, window_startIndex, Nat.add_assoc, ← Nat.succ_mul]
      at hrec

end Mocha
