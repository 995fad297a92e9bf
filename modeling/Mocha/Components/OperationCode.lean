import Mocha.Helpers.InterpreterUtils
import Mocha.Models.Translations

/-!
# Rebase and bind opcodes (`DyldInfoComponents/`)

`OperationCodeComponent` is generic in the metadata of an opcode; `OperationCodeMetadata` is the
protocol and `RebaseOperationCodeMetadata`, `BindOperationCodeMetadata` its two instances. A
metadata initializer traps on an opcode or an immediate it does not know.

`nextOperationCode` is one turn of the loop of `operationCodes(from:)`: the opcode byte, the LEB
operands its metadata asks for, and the C string.
-/

namespace Mocha

open Lib Data

/-- `LEBType`. -/
inductive LEBType where
  | signed
  | unsigned
  deriving DecidableEq

/-- `OperationCodeMetadataProtocol`. -/
class OperationCodeMetadata (M : Type) where
  init : UInt8 → UInt8 → Run M
  operationReadable : M → String
  immediateReadable : M → String
  numberOfTrailingLEB : M → Nat
  trailingLEBType : M → LEBType
  hasTrailingCString : M → Bool

/-! ## Rebase opcodes -/

/-- `RebaseOperationType`. -/
inductive RebaseOperationType where
  | done
  | setTypeImm
  | setSegmentAndOffsetULEB
  | addAddrULEB
  | addAddrImmScaled
  | doRebaseImmTimes
  | doRebaseULEBTimes
  | doRebaseAddAddrULEB
  | doRebaseULEBTimesSkippingULEB
  deriving DecidableEq

namespace RebaseOperationType

/-- `rawValue`. -/
def rawValue : RebaseOperationType → UInt8
  | .done => 0x00
  | .setTypeImm => 0x10
  | .setSegmentAndOffsetULEB => 0x20
  | .addAddrULEB => 0x30
  | .addAddrImmScaled => 0x40
  | .doRebaseImmTimes => 0x50
  | .doRebaseULEBTimes => 0x60
  | .doRebaseAddAddrULEB => 0x70
  | .doRebaseULEBTimesSkippingULEB => 0x80

/-- `init?(rawValue:)`. -/
def ofRaw? (raw : UInt8) : Option RebaseOperationType :=
  [done, setTypeImm, setSegmentAndOffsetULEB, addAddrULEB, addAddrImmScaled, doRebaseImmTimes,
    doRebaseULEBTimes, doRebaseAddAddrULEB, doRebaseULEBTimesSkippingULEB].find?
      fun t => t.rawValue == raw

/-- `readable`. -/
def readable : RebaseOperationType → String
  | .done => "REBASE_OPCODE_DONE"
  | .setTypeImm => "REBASE_OPCODE_SET_TYPE_IMM"
  | .setSegmentAndOffsetULEB => "REBASE_OPCODE_SET_SEGMENT_AND_OFFSET_ULEB"
  | .addAddrULEB => "REBASE_OPCODE_ADD_ADDR_ULEB"
  | .addAddrImmScaled => "REBASE_OPCODE_ADD_ADDR_IMM_SCALED"
  | .doRebaseImmTimes => "REBASE_OPCODE_DO_REBASE_IMM_TIMES"
  | .doRebaseULEBTimes => "REBASE_OPCODE_DO_REBASE_ULEB_TIMES"
  | .doRebaseAddAddrULEB => "REBASE_OPCODE_DO_REBASE_ADD_ADDR_ULEB"
  | .doRebaseULEBTimesSkippingULEB => "REBASE_OPCODE_DO_REBASE_ULEB_TIMES_SKIPPING_ULEB"

end RebaseOperationType

/-- `RebaseImmediateType`. -/
inductive RebaseImmediateType where
  | rebaseTypePointer
  | rebaseTypeTextAbsolute32
  | rebaseTypeTextPCRel32
  | rawValue (value : UInt8)
  deriving DecidableEq

/-- `RebaseImmediateType.readable`. -/
def RebaseImmediateType.readable : RebaseImmediateType → String
  | .rebaseTypePointer => "REBASE_TYPE_POINTER"
  | .rebaseTypeTextAbsolute32 => "REBASE_TYPE_TEXT_ABSOLUTE32"
  | .rebaseTypeTextPCRel32 => "REBASE_TYPE_TEXT_PCREL32"
  | .rawValue value => decimal value.toNat

/-- `RebaseOperationCodeMetadata`. -/
structure RebaseOperationCodeMetadata where
  operationType : RebaseOperationType
  immediateType : RebaseImmediateType
  deriving DecidableEq

namespace RebaseOperationCodeMetadata

/-- `init(operationCodeValue:immediateValue:)`. -/
def make (operationCodeValue immediateValue : UInt8) : Run RebaseOperationCodeMetadata := do
  let operationType ← guardLet (RebaseOperationType.ofRaw? operationCodeValue)
  let immediateType ←
    match operationType with
    | .setTypeImm =>
      if immediateValue = 1 then .ok .rebaseTypePointer
      else if immediateValue = 2 then .ok .rebaseTypeTextAbsolute32
      else if immediateValue = 3 then .ok .rebaseTypeTextPCRel32
      else fatalError
    | _ => .ok (.rawValue immediateValue)
  return { operationType, immediateType }

/-- `numberOfTrailingLEB`. -/
def lebCount (m : RebaseOperationCodeMetadata) : Nat :=
  match m.operationType with
  | .doRebaseULEBTimesSkippingULEB => 2
  | .setSegmentAndOffsetULEB | .addAddrULEB | .doRebaseULEBTimes | .doRebaseAddAddrULEB => 1
  | _ => 0

end RebaseOperationCodeMetadata

instance : OperationCodeMetadata RebaseOperationCodeMetadata where
  init := RebaseOperationCodeMetadata.make
  operationReadable m := m.operationType.readable
  immediateReadable m := m.immediateType.readable
  numberOfTrailingLEB := RebaseOperationCodeMetadata.lebCount
  trailingLEBType _ := .unsigned
  hasTrailingCString _ := false

/-! ## Bind opcodes -/

/-- `BindOperationType`. -/
inductive BindOperationType where
  | done
  | setDylibOrdinalImm
  | setDylibOrdinalULEB
  | setDylibSpecialImm
  | setSymbolTrailingFlagsImm
  | setTypeImm
  | setAddEndSLEB
  | setSegmentAndOffsetULEB
  | addAddrULEB
  | doBind
  | doBindAddAddrULEB
  | doBindAddAddrImmScaled
  | doBindULEBTimesSkippingULEB
  | threaded
  deriving DecidableEq

namespace BindOperationType

/-- `rawValue`. -/
def rawValue : BindOperationType → UInt8
  | .done => 0x00
  | .setDylibOrdinalImm => 0x10
  | .setDylibOrdinalULEB => 0x20
  | .setDylibSpecialImm => 0x30
  | .setSymbolTrailingFlagsImm => 0x40
  | .setTypeImm => 0x50
  | .setAddEndSLEB => 0x60
  | .setSegmentAndOffsetULEB => 0x70
  | .addAddrULEB => 0x80
  | .doBind => 0x90
  | .doBindAddAddrULEB => 0xa0
  | .doBindAddAddrImmScaled => 0xb0
  | .doBindULEBTimesSkippingULEB => 0xc0
  | .threaded => 0xd0

/-- `init?(rawValue:)`. -/
def ofRaw? (raw : UInt8) : Option BindOperationType :=
  [done, setDylibOrdinalImm, setDylibOrdinalULEB, setDylibSpecialImm, setSymbolTrailingFlagsImm,
    setTypeImm, setAddEndSLEB, setSegmentAndOffsetULEB, addAddrULEB, doBind, doBindAddAddrULEB,
    doBindAddAddrImmScaled, doBindULEBTimesSkippingULEB, threaded].find? fun t => t.rawValue == raw

/-- `readable`. -/
def readable : BindOperationType → String
  | .done => "BIND_OPCODE_DONE"
  | .setDylibOrdinalImm => "BIND_OPCODE_SET_DYLIB_ORDINAL_IMM"
  | .setDylibOrdinalULEB => "BIND_OPCODE_SET_DYLIB_ORDINAL_ULEB"
  | .setDylibSpecialImm => "BIND_OPCODE_SET_DYLIB_SPECIAL_IMM"
  | .setSymbolTrailingFlagsImm => "BIND_OPCODE_SET_SYMBOL_TRAILING_FLAGS_IMM"
  | .setTypeImm => "BIND_OPCODE_SET_TYPE_IMM"
  | .setAddEndSLEB => "BIND_OPCODE_SET_ADDEND_SLEB"
  | .setSegmentAndOffsetULEB => "BIND_OPCODE_SET_SEGMENT_AND_OFFSET_ULEB"
  | .addAddrULEB => "BIND_OPCODE_ADD_ADDR_ULEB"
  | .doBind => "BIND_OPCODE_DO_BIND"
  | .doBindAddAddrULEB => "BIND_OPCODE_DO_BIND_ADD_ADDR_ULEB"
  | .doBindAddAddrImmScaled => "BIND_OPCODE_DO_BIND_ADD_ADDR_IMM_SCALED"
  | .doBindULEBTimesSkippingULEB => "BIND_OPCODE_DO_BIND_ULEB_TIMES_SKIPPING_ULEB"
  | .threaded => "BIND_OPCODE_THREADED"

end BindOperationType

/-- `BindImmediateType`. -/
inductive BindImmediateType where
  | threadedSubSetBindOrdinalTableSizeULEB
  | threadedSubApple
  | bindTypePointer
  | bindTypeTextAbsolute32
  | bindTypeTextPCRel32
  | rawValue (value : UInt8)
  deriving DecidableEq

/-- `BindImmediateType.readable`. -/
def BindImmediateType.readable : BindImmediateType → String
  | .threadedSubSetBindOrdinalTableSizeULEB =>
    "BIND_SUBOPCODE_THREADED_SET_BIND_ORDINAL_TABLE_SIZE_ULEB"
  | .threadedSubApple => "BIND_SUBOPCODE_THREADED_APPLY"
  | .bindTypePointer => "BIND_TYPE_POINTER"
  | .bindTypeTextAbsolute32 => "BIND_TYPE_TEXT_ABSOLUTE32"
  | .bindTypeTextPCRel32 => "BIND_TYPE_TEXT_PCREL32"
  | .rawValue value => decimal value.toNat

/-- `BindOperationCodeMetadata`. -/
structure BindOperationCodeMetadata where
  bindOperationType : BindOperationType
  bindImmediateType : BindImmediateType
  hasTrailingCString : Bool
  deriving DecidableEq

namespace BindOperationCodeMetadata

/-- `init(operationCodeValue:immediateValue:)`. -/
def make (operationCodeValue immediateValue : UInt8) : Run BindOperationCodeMetadata := do
  let bindOperationType ← guardLet (BindOperationType.ofRaw? operationCodeValue)
  let hasTrailingCString := bindOperationType == .setSymbolTrailingFlagsImm
  let bindImmediateType ←
    match bindOperationType with
    | .setTypeImm =>
      if immediateValue = 1 then .ok .bindTypePointer
      else if immediateValue = 2 then .ok .bindTypeTextAbsolute32
      else if immediateValue = 3 then .ok .bindTypeTextPCRel32
      else fatalError
    | .threaded =>
      if immediateValue = 0 then .ok .threadedSubSetBindOrdinalTableSizeULEB
      else if immediateValue = 1 then .ok .threadedSubApple
      else fatalError
    | _ => .ok (.rawValue immediateValue)
  return { bindOperationType, bindImmediateType, hasTrailingCString }

/-- `numberOfTrailingLEB`. -/
def lebCount (m : BindOperationCodeMetadata) : Nat :=
  match m.bindOperationType with
  | .setDylibOrdinalULEB | .setAddEndSLEB | .setSegmentAndOffsetULEB | .addAddrULEB
  | .doBindAddAddrULEB => 1
  | .doBindULEBTimesSkippingULEB => 2
  | .threaded =>
    match m.bindImmediateType with
    | .threadedSubSetBindOrdinalTableSizeULEB => 1
    | _ => 0
  | _ => 0

end BindOperationCodeMetadata

instance : OperationCodeMetadata BindOperationCodeMetadata where
  init := BindOperationCodeMetadata.make
  operationReadable m := m.bindOperationType.readable
  immediateReadable m := m.bindImmediateType.readable
  numberOfTrailingLEB := BindOperationCodeMetadata.lebCount
  trailingLEBType m :=
    match m.bindOperationType with
    | .setAddEndSLEB => .signed
    | _ => .unsigned
  hasTrailingCString := BindOperationCodeMetadata.hasTrailingCString

/-! ## The parser -/

/-- `DyldInfoLEB`. -/
structure DyldInfoLEB where
  byteCount : Nat
  raw : UInt64
  isSigned : Bool
  deriving DecidableEq

/-- `OperationCode`. -/
structure OperationCode (M : Type) where
  codeMetadata : Field M
  lebValues : List (Field DyldInfoLEB)
  cstringData : Option Data
  numberOfTranslations : Nat
  deriving DecidableEq

section Parser

variable {M : Type} [OperationCodeMetadata M]

open OperationCodeMetadata

/-- The body of `for _ in 0..<operationCode.numberOfTrailingLEB`. -/
def trailingLEB (metadata : M) (d : Data) (index : Nat) : Run (Field DyldInfoLEB × Nat) := do
  let s ← readLEB d index
  let isSigned := trailingLEBType metadata == .signed
  let raw := if isSigned then s.delta ||| UInt64.ofNat ((2 ^ 64 - 1) * 2 ^ s.shift) else s.delta
  return (⟨⟨s.index - index, raw, isSigned⟩, Span.of (d.startIndex + index) (s.index - index)⟩,
    s.index)

/-- The operand loop. -/
def trailingLEBs (metadata : M) (d : Data) : Nat → Nat → Run (List (Field DyldInfoLEB) × Nat)
  | 0, index => .ok ([], index)
  | n + 1, index => do
    let (leb, index) ← trailingLEB metadata d index
    let (lebs, index) ← trailingLEBs metadata d n index
    return (leb :: lebs, index)

/-- The trailing string, with its NUL. -/
def trailingCString (d : Data) (index : Nat) : Run (Data × Nat) := do
  let cstringStartIndex := index
  let index ← cStringEnd d index
  let cstringData ← d.slice (d.startIndex + cstringStartIndex) (d.startIndex + index)
  return (cstringData, index)

/-- One turn of the loop of `operationCodes(from:)`. -/
def nextOperationCode (d : Data) (index : Nat) : Run (OperationCode M × Nat) := do
  let byte ← d.byteAt (d.startIndex + index)
  let metadata ← init (M := M) (byte.value &&& 0xf0) (byte.value &&& 0x0f)
  let (lebValues, index) ← trailingLEBs metadata d (numberOfTrailingLEB metadata) (index + 1)
  if hasTrailingCString metadata then do
    let (cstringData, index) ← trailingCString d index
    return (⟨byte.map fun _ => metadata, lebValues, some cstringData, 2 + lebValues.length + 1⟩,
      index)
  else
    return (⟨byte.map fun _ => metadata, lebValues, none, 2 + lebValues.length⟩, index)

/-- The translation of an operand. -/
def lebTranslation (leb : Field DyldInfoLEB) : GeneralTranslation :=
  leb.translation "LEB Value"
    (if leb.value.isSigned then toString leb.value.raw.toInt64.toInt
      else decimal leb.value.raw.toNat)
    leb.value.byteCount .uleb

/-- The translation of the string. -/
def cStringTranslation (cstringData : Data) : GeneralTranslation :=
  (Field.mk (cstringData.utf8String.getD "🙅‍♂️ Invalid CString") cstringData.span).translation
    "String" (cstringData.utf8String.getD "🙅‍♂️ Invalid CString") cstringData.count .utf8String

/-- `OperationCode.translations`. -/
def OperationCode.translations (op : OperationCode M) : List GeneralTranslation :=
  ((op.codeMetadata.translation "Operation Code (Upper 4 bits)"
      (operationReadable op.codeMetadata.value) 1 .flags).extra
    (some "Immediate Value Used As (Lower 4 bits)")
    (some (immediateReadable op.codeMetadata.value))) ::
  (op.lebValues.map lebTranslation ++ op.cstringData.toList.map cStringTranslation)

/-! ## What one turn reads -/

/-- An instruction as it stands in the buffer: the opcode byte, the LEB operands and the string. -/
structure Instruction where
  byte : UInt8
  operands : List (List UInt8)
  string : Option (List UInt8)
  deriving DecidableEq

namespace Instruction

/-- The upper four bits. -/
def opcode (i : Instruction) : UInt8 := i.byte &&& 0xf0

/-- The lower four bits. -/
def immediate (i : Instruction) : UInt8 := i.byte &&& 0x0f

/-- The bytes of the instruction. -/
def bytes (i : Instruction) : List UInt8 := i.byte :: (i.operands.flatten ++ i.string.getD [])

end Instruction

theorem Instruction.length_bytes (i : Instruction) :
    i.bytes.length = 1 + i.operands.flatten.length + (i.string.getD []).length := by
  rw [bytes, List.length_cons, List.length_append]
  omega

/-- The 64-bit value the parser stores for an operand. -/
def lebRaw (metadata : M) (o : List UInt8) : UInt64 :=
  if trailingLEBType metadata == .signed then
    UInt64.ofNat (lebNat o) ||| UInt64.ofNat ((2 ^ 64 - 1) * 2 ^ (7 * o.length))
  else UInt64.ofNat (lebNat o)

/-- The operand `o` read at `k`. -/
def lebField (metadata : M) (d : Data) (k : Nat) (o : List UInt8) : Field DyldInfoLEB :=
  ⟨⟨o.length, lebRaw metadata o, trailingLEBType metadata == .signed⟩,
    Span.of (d.startIndex + k) o.length⟩

/-- The operands `os` read one after another from `k` on. -/
def lebFields (metadata : M) (d : Data) : Nat → List (List UInt8) → List (Field DyldInfoLEB)
  | _, [] => []
  | k, o :: os => lebField metadata d k o :: lebFields metadata d (k + o.length) os

/-- The instruction `i` read at `k`. -/
def Instruction.decoded (i : Instruction) (metadata : M) (d : Data) (k : Nat) : OperationCode M where
  codeMetadata := ⟨metadata, Span.of (d.startIndex + k) 1⟩
  lebValues := lebFields metadata d (k + 1) i.operands
  cstringData := i.string.map fun s => d.window (k + 1 + i.operands.flatten.length) s.length
  numberOfTranslations := 2 + i.operands.length + if i.string.isSome then 1 else 0

/-- The parser accepts `i` with the metadata `m`. -/
structure Instruction.Accepted (i : Instruction) (m : M) : Prop where
  metadata : init i.opcode i.immediate = .ok m
  count : i.operands.length = numberOfTrailingLEB m
  operands : ∀ o ∈ i.operands, IsLeb o ∧ 7 * o.length < 2 ^ 32
  hasString : i.string.isSome = hasTrailingCString m
  string : ∀ s ∈ i.string, IsCString s

theorem length_lebFields (metadata : M) (d : Data) : ∀ (k : Nat) (os : List (List UInt8)),
    (lebFields metadata d k os).length = os.length
  | _, [] => rfl
  | k, o :: os => by rw [lebFields, List.length_cons, length_lebFields, List.length_cons]

theorem lebFields_counts (m : M) (d : Data) : ∀ (k : Nat) (os : List (List UInt8)),
    (lebFields m d k os).map (fun v => v.value.byteCount) = os.map List.length
  | _, [] => rfl
  | k, o :: os => by rw [lebFields, List.map_cons, lebFields_counts, List.map_cons]; rfl

/-- The operands are read as signed or unsigned, as the metadata says, and the unsigned ones modulo
`2 ^ 64`. -/
theorem lebFields_values (m : M) (d : Data) : ∀ (k : Nat) (os : List (List UInt8)),
    List.Forall₂ (fun v o => v.value.isSigned = (trailingLEBType m == .signed) ∧
        ((trailingLEBType m == .signed) = false → v.value.raw.toNat = lebNat o % 2 ^ 64))
      (lebFields m d k os) os
  | _, [] => .nil
  | k, o :: os => by
    refine .cons ⟨rfl, fun hunsigned => ?_⟩ (lebFields_values m d (k + o.length) os)
    simp only [lebField, lebRaw, hunsigned, Bool.false_eq_true, if_false, UInt64.toNat_ofNat']

theorem trailingLEB_eq_ok {m : M} {d : Data} {k : Nat} {r : Field DyldInfoLEB × Nat} :
    trailingLEB m d k = .ok r ↔ ∃ o, d.Holds k o ∧ IsLeb o ∧ 7 * o.length < 2 ^ 32 ∧
      r = (lebField m d k o, k + o.length) := by
  unfold trailingLEB
  simp only [bind_eq_ok, readLEB_eq_ok, pure_eq_ok, Except.ok.injEq]
  constructor
  · rintro ⟨_, ⟨o, hholds, hleb, hbound, rfl⟩, rfl⟩
    refine ⟨o, hholds, hleb, hbound, ?_⟩
    simp only [lebField, lebRaw, Nat.add_sub_cancel_left]
  · rintro ⟨o, hholds, hleb, hbound, rfl⟩
    refine ⟨_, ⟨o, hholds, hleb, hbound, rfl⟩, ?_⟩
    simp only [lebField, lebRaw, Nat.add_sub_cancel_left]

theorem trailingLEBs_eq_ok {m : M} {d : Data} : ∀ {n k : Nat} {r : List (Field DyldInfoLEB) × Nat},
    k ≤ d.count →
    (trailingLEBs m d n k = .ok r ↔ ∃ os, os.length = n ∧ d.Holds k os.flatten ∧
      (∀ o ∈ os, IsLeb o ∧ 7 * o.length < 2 ^ 32) ∧
      r = (lebFields m d k os, k + os.flatten.length))
  | 0, k, r, hk => by
    rw [trailingLEBs, Except.ok.injEq]
    constructor
    · rintro rfl
      exact ⟨[], rfl, holds_nil.mpr hk, nofun, rfl⟩
    · rintro ⟨os, hlen, _, _, rfl⟩
      rw [List.length_eq_zero_iff.mp hlen]
      rfl
  | n + 1, k, r, hk => by
    simp only [trailingLEBs, bind_eq_ok, trailingLEB_eq_ok, pure_eq_ok, Except.ok.injEq]
    constructor
    · rintro ⟨_, ⟨o, hholds, hleb, hbound, rfl⟩, ⟨lebs, e⟩, hrest, rfl⟩
      obtain ⟨os, rfl, hos, hall, hr⟩ := (trailingLEBs_eq_ok hholds.1).mp hrest
      cases hr
      refine ⟨o :: os, rfl, holds_append.mpr ⟨hholds, hos⟩, ?_, ?_⟩
      · intro o' ho'
        rcases List.mem_cons.mp ho' with rfl | ho'
        · exact ⟨hleb, hbound⟩
        · exact hall o' ho'
      · rw [lebFields, List.flatten_cons, List.length_append, Nat.add_assoc]
    · rintro ⟨os, hlen, hholds, hall, rfl⟩
      cases os with
      | nil => cases hlen
      | cons o os =>
        rw [List.flatten_cons, holds_append] at hholds
        obtain ⟨ho, hos⟩ := hholds
        obtain ⟨hleb, hbound⟩ := hall o List.mem_cons_self
        refine ⟨_, ⟨o, ho, hleb, hbound, rfl⟩, _, (trailingLEBs_eq_ok ho.1).mpr
          ⟨os, Nat.succ_inj.mp hlen, hos, fun o' ho' => hall o' (List.mem_cons_of_mem o ho'), rfl⟩,
          ?_⟩
        rw [lebFields, List.flatten_cons, List.length_append, Nat.add_assoc]

theorem trailingCString_eq_ok {d : Data} {k : Nat} {r : Data × Nat} :
    trailingCString d k = .ok r ↔ ∃ s, d.Holds k s ∧ IsCString s ∧
      r = (d.window k s.length, k + s.length) := by
  unfold trailingCString
  simp only [bind_eq_ok, cStringEnd_eq_ok, pure_eq_ok, Except.ok.injEq]
  constructor
  · rintro ⟨_, ⟨s, hholds, hstr, rfl⟩, data, hslice, rfl⟩
    rw [← Nat.add_assoc, slice_ok d hholds.1, Except.ok.injEq] at hslice
    exact ⟨s, hholds, hstr, by rw [hslice]⟩
  · rintro ⟨s, hholds, hstr, rfl⟩
    refine ⟨_, ⟨s, hholds, hstr, rfl⟩, d.window k s.length, ?_, rfl⟩
    rw [← Nat.add_assoc, slice_ok d hholds.1]

/-- **One turn at index `k`** reads an accepted instruction there and stops after it. -/
theorem nextOperationCode_eq_ok {d : Data} {k : Nat} {r : OperationCode M × Nat} :
    nextOperationCode d k = .ok r ↔ ∃ (i : Instruction) (m : M), i.Accepted m ∧
      d.Holds k i.bytes ∧ r = (i.decoded m d k, k + i.bytes.length) := by
  unfold nextOperationCode
  rw [byteAt_bind]
  constructor
  · rintro ⟨b, hb, h⟩
    rw [bind_eq_ok] at h
    obtain ⟨m, hm, h⟩ := h
    rw [bind_eq_ok] at h
    obtain ⟨⟨lebs, e⟩, hlebs, h⟩ := h
    obtain ⟨os, hcount, hholds, hall, hr⟩ :=
      (trailingLEBs_eq_ok (lt_count_of_getElem? hb)).mp hlebs
    cases hr
    cases hs : hasTrailingCString m with
    | true =>
      simp only [hs, if_true, bind_eq_ok, trailingCString_eq_ok, pure_eq_ok, Except.ok.injEq] at h
      obtain ⟨_, ⟨s, hsholds, hstr, rfl⟩, rfl⟩ := h
      refine ⟨⟨b, os, some s⟩, m, ⟨hm, hcount, hall, hs.symm, ?_⟩, ?_, ?_⟩
      · intro s' hs'
        cases hs'
        exact hstr
      · exact holds_cons.mpr ⟨hb, holds_append.mpr ⟨hholds, hsholds⟩⟩
      · rw [Instruction.length_bytes, ← Nat.add_assoc, ← Nat.add_assoc]
        simp only [Instruction.decoded, length_lebFields]
        rfl
    | false =>
      simp only [hs, Bool.false_eq_true, if_false, pure_eq_ok, Except.ok.injEq] at h
      subst h
      refine ⟨⟨b, os, none⟩, m, ⟨hm, hcount, hall, hs.symm, nofun⟩, ?_, ?_⟩
      · rw [Instruction.bytes, Option.getD_none, List.append_nil]
        exact holds_cons.mpr ⟨hb, hholds⟩
      · rw [Instruction.length_bytes, ← Nat.add_assoc, ← Nat.add_assoc]
        simp only [Instruction.decoded, length_lebFields]
        rfl
  · rintro ⟨⟨b, os, string⟩, m, hi, hholds, rfl⟩
    obtain ⟨hb, hrest⟩ := holds_cons.mp hholds
    obtain ⟨hos, hstring⟩ := holds_append.mp hrest
    have hlebs := (trailingLEBs_eq_ok (m := m) (lt_count_of_getElem? hb)).mpr
      ⟨os, hi.count, hos, hi.operands, rfl⟩
    refine ⟨b, hb, bind_eq_ok.mpr ⟨m, hi.metadata, bind_eq_ok.mpr ⟨_, hlebs, ?_⟩⟩⟩
    rw [Instruction.length_bytes, ← Nat.add_assoc, ← Nat.add_assoc]
    cases string with
    | none =>
      have hhas : hasTrailingCString m = false := hi.hasString.symm
      simp only [hhas, Bool.false_eq_true, if_false, Instruction.decoded, length_lebFields]
      rfl
    | some s =>
      have hhas : hasTrailingCString m = true := hi.hasString.symm
      simp only [hhas, if_true]
      refine bind_eq_ok.mpr ⟨_, trailingCString_eq_ok.mpr
        ⟨s, hstring, hi.string s rfl, rfl⟩, ?_⟩
      simp only [Instruction.decoded, length_lebFields]
      rfl

/-! ## The loop -/

/-- `while index < rawData.count { … }`. -/
def operationCodeLoop (M : Type) [OperationCodeMetadata M] (d : Data) :
    Loop Trap Nat (OperationCode M) where
  more index := decide (index < d.count)
  next := nextOperationCode d
  rank index := d.count - index
  lowers hm hn := by
    obtain ⟨i, m, _, hholds, hr⟩ := nextOperationCode_eq_ok.mp hn
    cases hr
    have hlen := i.length_bytes
    have hlt := of_decide_eq_true hm
    omega

/-- `OperationCodeComponent.operationCodes(from:)`. -/
def operationCodes (M : Type) [OperationCodeMetadata M] (rawData : Data) :
    Run (List (OperationCode M)) := do
  let (operationCodes, _) ← (operationCodeLoop M rawData).run 0
  return operationCodes

/-- The instructions `is` stand one after another in `d` from `k` to its end, and parse to `ops`. -/
inductive ParsesFrom (d : Data) : Nat → List Instruction → List (OperationCode M) → Prop
  | nil : ParsesFrom d d.count [] []
  | cons {k : Nat} {i : Instruction} {m : M} {is : List Instruction} {ops : List (OperationCode M)}
      (hi : i.Accepted m) (hholds : d.Holds k i.bytes)
      (hrest : ParsesFrom d (k + i.bytes.length) is ops) :
      ParsesFrom d k (i :: is) (i.decoded m d k :: ops)

theorem parsesFrom_of_turns {d : Data} {ops : List (OperationCode M)} {k u : Nat} (hk : k ≤ d.count)
    (h : (operationCodeLoop M d).Turns k ops u) (hu : ¬ u < d.count) :
    ∃ is, ParsesFrom d k is ops := by
  induction h with
  | nil k =>
    have hend : k = d.count := by omega
    exact ⟨[], hend ▸ .nil⟩
  | cons hm hn _ ih =>
    obtain ⟨i, m, hi, hholds, hr⟩ := nextOperationCode_eq_ok.mp hn
    cases hr
    obtain ⟨is, hrest⟩ := ih hholds.1 hu
    exact ⟨i :: is, .cons hi hholds hrest⟩

theorem ParsesFrom.turns {d : Data} {k : Nat} {is : List Instruction}
    {ops : List (OperationCode M)} (h : ParsesFrom d k is ops) :
    (operationCodeLoop M d).Turns k ops d.count := by
  induction h with
  | nil => exact .nil _
  | @cons k i m is ops hi hholds _ ih =>
    have hlen := i.length_bytes
    have hle := hholds.1
    exact .cons (decide_eq_true (by omega))
      (nextOperationCode_eq_ok.mpr ⟨i, m, hi, hholds, rfl⟩) ih

/-- Accepted instructions that fill the buffer are parsed. -/
theorem parsesFrom_of_accepted {d : Data} : ∀ {is : List Instruction} {k : Nat},
    (∀ i ∈ is, ∃ m : M, i.Accepted m) → d.Holds k (is.flatMap Instruction.bytes) →
    d.count = k + (is.flatMap Instruction.bytes).length →
    ∃ ops : List (OperationCode M), ParsesFrom d k is ops
  | [], k, _, _, hcount => by
    have hk : k = d.count := hcount.symm
    exact ⟨[], hk ▸ .nil⟩
  | i :: is, k, haccepted, hholds, hcount => by
    rw [List.flatMap_cons, holds_append] at hholds
    rw [List.flatMap_cons, List.length_append, ← Nat.add_assoc] at hcount
    obtain ⟨hhead, hrest⟩ := hholds
    obtain ⟨m, hi⟩ := haccepted i List.mem_cons_self
    obtain ⟨ops, hops⟩ := parsesFrom_of_accepted
      (fun j hj => haccepted j (List.mem_cons_of_mem i hj)) hrest hcount
    exact ⟨_, .cons hi hhead hops⟩

/-- Each instruction is parsed where it stands. -/
theorem ParsesFrom.getElem? {d : Data} {k : Nat} {pre post : List Instruction} {i : Instruction}
    {ops : List (OperationCode M)} (h : ParsesFrom d k (pre ++ i :: post) ops) :
    ∃ m : M, i.Accepted m ∧ d.Holds (k + (pre.flatMap Instruction.bytes).length) i.bytes ∧
      ops[pre.length]? = some (i.decoded m d (k + (pre.flatMap Instruction.bytes).length)) := by
  induction pre generalizing k ops with
  | nil =>
    cases h with
    | cons hi hholds hrest => exact ⟨_, hi, hholds, rfl⟩
  | cons j pre ih =>
    cases h with
    | cons hj hholds hrest =>
      obtain ⟨m, hi, hi', hop⟩ := ih hrest
      rw [List.flatMap_cons, List.length_append, ← Nat.add_assoc]
      exact ⟨m, hi, hi', hop⟩

/-- **`operationCodes`** returns `ops` exactly when accepted instructions that parse to `ops` fill
the buffer. -/
theorem operationCodes_eq_ok {d : Data} {ops : List (OperationCode M)} :
    operationCodes M d = .ok ops ↔ ∃ is, ParsesFrom d 0 is ops := by
  unfold operationCodes
  rw [bind_eq_ok]
  constructor
  · rintro ⟨⟨_, u⟩, hrun, h⟩
    cases h
    obtain ⟨hturns, hend⟩ := Loop.run_eq_ok_iff.mp hrun
    exact parsesFrom_of_turns (Nat.zero_le _) hturns (of_decide_eq_false hend)
  · rintro ⟨is, h⟩
    refine ⟨(ops, d.count), Loop.run_eq_ok_iff.mpr ⟨h.turns, ?_⟩, rfl⟩
    exact decide_eq_false (Nat.lt_irrefl _)

/-! ## What the translations show -/

theorem lebFields_shown (m : M) (d : Data) : ∀ (k : Nat) (os : List (List UInt8)),
    Shown (d.startIndex + k) (d.startIndex + (k + os.flatten.length))
      ((lebFields m d k os).map lebTranslation)
  | k, [] => rfl
  | k, o :: os => by
    have hrest := lebFields_shown m d (k + o.length) os
    rw [← Nat.add_assoc] at hrest
    rw [lebFields, List.map_cons, List.flatten_cons, List.length_append, ← Nat.add_assoc k]
    exact ⟨rfl, hrest⟩

theorem decoded_shown {i : Instruction} {m : M} {d : Data} {k : Nat} (h : d.Holds k i.bytes) :
    Shown (d.startIndex + k) (d.startIndex + (k + i.bytes.length))
      (i.decoded m d k).translations := by
  have hlen := i.length_bytes
  have hle := h.1
  refine ⟨rfl, (lebFields_shown m d (k + 1) i.operands).append ?_⟩
  unfold Instruction.decoded
  cases hs : i.string with
  | none =>
    rw [hs, Option.getD_none, List.length_nil] at hlen
    exact congrArg _ (by omega)
  | some s =>
    rw [hs, Option.getD_some] at hlen
    have hfit : k + 1 + i.operands.flatten.length + s.length ≤ d.count := by omega
    simp only [Option.map_some, Option.toList_some, List.map_cons, List.map_nil, Shown,
      cStringTranslation, Field.translation_shows, Field.translation_bytesCount,
      window_span d hfit, window_count d hfit, true_and]
    omega

/-- The translations of all instructions show the buffer. -/
theorem operationCodes_shown {d : Data} {ops : List (OperationCode M)}
    (h : operationCodes M d = .ok ops) :
    Shown d.startIndex d.endIndex (ops.flatMap OperationCode.translations) := by
  obtain ⟨is, hparse⟩ := operationCodes_eq_ok.mp h
  have hfrom : ∀ {k is ops}, ParsesFrom (M := M) d k is ops →
      Shown (d.startIndex + k) d.endIndex (ops.flatMap OperationCode.translations) := by
    intro k is ops hp
    induction hp with
    | nil => exact rfl
    | cons _ hholds _ ih =>
      rw [List.flatMap_cons]
      exact (decoded_shown hholds).append ih
  exact hfrom hparse

end Parser

end Mocha
