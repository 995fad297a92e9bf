import Mocha.Helpers.DataShifter
import Mocha.Models.Translations

/-!
# The Mach header (`Models/Macho.swift`, `Models/CPUType.swift`)

`MachoHeader.runTranslating` reads the magic bytes at the indices `0` to `3`, whatever the start
index of the header's data: it returns only for a header cut from data that starts at `0`.

`machoHeader_shown`: the translations show the header, field by field.
-/

namespace Mocha

open Lib Data DataShifter

/-- `CPUType`. -/
inductive CPUType where
  | x86
  | x86_64
  | arm
  | arm64
  | arm64_32
  | unknown (value : UInt32)
  deriving DecidableEq, Repr

/-- `CPUType(_:)`. -/
def CPUType.init (value : UInt32) : CPUType :=
  (([(0x00000007, .x86), (0x01000007, .x86_64), (0x0000000c, .arm), (0x0100000c, .arm64),
    (0x0200000c, .arm64_32)] : List (UInt32 × CPUType)).lookup value).getD (.unknown value)

/-- `CPUType.name`. -/
def CPUType.name : CPUType → String
  | .x86 => "x86 (CPU_TYPE_X86)"
  | .x86_64 => "x86_64 (CPU_TYPE_X86_64)"
  | .arm => "arm (CPU_TYPE_ARM)"
  | .arm64 => "arm64 (CPU_TYPE_ARM64)"
  | .arm64_32 => "arm64_32 (CPU_TYPE_ARM64_32)"
  | .unknown raw => "UNKNOWN(" ++ hex raw.toNat ++ ")"

/-- `CPUSubtype`. -/
inductive CPUSubtype where
  | x86_all
  | x86_arch1
  | x86_64_all
  | x86_64_h
  | arm_all
  | arm_v7
  | arm_v7f
  | arm_v7s
  | arm_v7k
  | arm_v8
  | arm64_all
  | arm64_v8
  | arm64_e
  | arm64_32_all
  | arm64_32_v8
  | unknown (value : UInt32)
  deriving DecidableEq, Repr

/-- The subtypes of each CPU type. -/
def CPUSubtype.known : CPUType → List (UInt32 × CPUSubtype)
  | .x86 => [(3, .x86_all), (4, .x86_arch1)]
  | .x86_64 => [(3, .x86_64_all), (8, .x86_64_h)]
  | .arm => [(0, .arm_all), (9, .arm_v7), (10, .arm_v7f), (11, .arm_v7s), (12, .arm_v7k),
      (13, .arm_v8)]
  | .arm64 => [(0, .arm64_all), (1, .arm64_v8), (2, .arm64_e)]
  | .arm64_32 => [(0, .arm64_32_all), (1, .arm64_32_v8)]
  | .unknown _ => []

/-- `CPUSubtype(_:cpuType:)`. -/
def CPUSubtype.init (value : UInt32) (cpuType : CPUType) : CPUSubtype :=
  ((CPUSubtype.known cpuType).lookup value).getD (.unknown value)

/-- `CPUSubtype.name`. -/
def CPUSubtype.name : CPUSubtype → String
  | .x86_all => "CPU_SUBTYPE_X86_ALL"
  | .x86_arch1 => "CPU_SUBTYPE_X86_ARCH1"
  | .x86_64_all => "CPU_SUBTYPE_X86_64_ALL"
  | .x86_64_h => "CPU_SUBTYPE_X86_64_H"
  | .arm_all => "CPU_SUBTYPE_ARM_ALL"
  | .arm_v7 => "CPU_SUBTYPE_ARM_V7"
  | .arm_v7f => "CPU_SUBTYPE_ARM_V7F"
  | .arm_v7s => "CPU_SUBTYPE_ARM_V7S"
  | .arm_v7k => "CPU_SUBTYPE_ARM_V7K"
  | .arm_v8 => "CPU_SUBTYPE_ARM_V8"
  | .arm64_all => "CPU_SUBTYPE_ARM64_ALL"
  | .arm64_v8 => "CPU_SUBTYPE_ARM64_V8"
  | .arm64_e => "CPU_SUBTYPE_ARM64E"
  | .arm64_32_all => "CPU_SUBTYPE_ARM64_32_ALL"
  | .arm64_32_v8 => "CPU_SUBTYPE_ARM64_32_V8"
  | .unknown raw => "UNKNOWN(" ++ hex raw.toNat

/-- `MachoType`. -/
inductive MachoType where
  | object
  | execute
  | dylib
  | unknown (value : UInt32)
  deriving DecidableEq, Repr

/-- `MachoType(with:)`. -/
def MachoType.init (value : UInt32) : MachoType :=
  (([(0x1, .object), (0x2, .execute), (0x6, .dylib)] : List (UInt32 × MachoType)).lookup
    value).getD (.unknown value)

/-- `MachoType.readable`. -/
def MachoType.readable : MachoType → String
  | .object => "Relocatable object file (MH_OBJECT)"
  | .execute => "Demand paged executable file (MH_EXECUTE)"
  | .dylib => "Dynamically bound shared library (MH_DYLIB)"
  | .unknown value => "unknown macho file: (" ++ decimal value.toNat

/-- The names in `flagsDescriptionFrom`, by bit. -/
def machoFlagNames : List String :=
  ["MH_NOUNDEFS", "MH_INCRLINK", "MH_DYLDLINK", "MH_BINDATLOAD", "MH_PREBOUND", "MH_SPLIT_SEGS",
   "MH_LAZY_INIT", "MH_TWOLEVEL", "MH_FORCE_FLAT", "MH_NOMULTIDEFS", "MH_NOFIXPREBINDING",
   "MH_PREBINDABLE", "MH_ALLMODSBOUND", "MH_SUBSECTIONS_VIA_SYMBOLS", "MH_CANONICAL",
   "MH_WEAK_DEFINES", "MH_BINDS_TO_WEAK", "MH_ALLOW_STACK_EXECUTION", "MH_ROOT_SAFE",
   "MH_SETUID_SAFE", "MH_NO_REEXPORTED_DYLIBS", "MH_PIE", "MH_DEAD_STRIPPABLE_DYLIB",
   "MH_HAS_TLV_DESCRIPTORS", "MH_NO_HEAP_EXECUTION"]

/-- `flagsDescriptionFrom(_:)`. -/
def flagsDescriptionFrom (flags : UInt32) : String :=
  joined "\n" ((machoFlagNames.zipIdx.filter fun p => flags &&& (1 <<< UInt32.ofNat p.2) != 0).map
    Prod.fst)

/-- `MachoHeader`. -/
structure MachoHeader where
  data : Data
  is64Bit : Bool
  magicData : Data
  cpuType : Field CPUType
  cpuSubtype : Field CPUSubtype
  machoType : Field MachoType
  numberOfLoadCommands : Field UInt32
  sizeOfAllLoadCommand : Field UInt32
  flags : Field UInt32
  /-- exists only for 64 bit -/
  reserved : Option (Field UInt32)
  deriving DecidableEq

/-- The size of the header: 28 bytes, or 32 for 64-bit. -/
def machoHeaderSize (is64Bit : Bool) : Nat := if is64Bit then 32 else 28

/-- `MachoHeader(from:is64Bit:)`. -/
def MachoHeader.init (machoData : Data) (is64Bit : Bool) : Run MachoHeader := do
  let headerData ← machoData.subSequence 0 (machoHeaderSize is64Bit)
  let s := DataShifter.init headerData
  let (magicData, s) ← s.shift .doubleWords
  let (cpuType, s) ← s.shiftUInt32
  let (cpuSubtype, s) ← s.shiftUInt32
  let (machoType, s) ← s.shiftUInt32
  let (numberOfLoadCommands, s) ← s.shiftUInt32
  let (sizeOfAllLoadCommand, s) ← s.shiftUInt32
  let (flags, s) ← s.shiftUInt32
  let reserved ← if is64Bit then (do let (r, _) ← s.shiftUInt32; return some r) else pure none
  return {
    data := headerData
    is64Bit := is64Bit
    magicData := magicData
    cpuType := cpuType.map CPUType.init
    cpuSubtype := cpuSubtype.map fun v => CPUSubtype.init v (CPUType.init cpuType.value)
    machoType := machoType.map MachoType.init
    numberOfLoadCommands := numberOfLoadCommands
    sizeOfAllLoadCommand := sizeOfAllLoadCommand
    flags := flags
    reserved := reserved }

/-- `String(format: "%0X", byte)`. -/
def hexFormat (b : UInt8) : String := String.ofList ((Nat.toDigits 16 b.toNat).map Char.toUpper)

/-- `MachoHeader.runTranslating()`. -/
def MachoHeader.runTranslating (h : MachoHeader) : Run (List TranslationGroup) := do
  let b0 ← h.magicData.byteAt 0
  let b1 ← h.magicData.byteAt 1
  let b2 ← h.magicData.byteAt 2
  let b3 ← h.magicData.byteAt 3
  let magic : Field String :=
    ⟨hexFormat b0.value ++ hexFormat b1.value ++ hexFormat b2.value ++ hexFormat b3.value,
      h.magicData.span⟩
  return [[
    magic.translation "Magic" magic.value 4 .rawData,
    h.cpuType.translation "CPU Type" h.cpuType.value.name 4 .numberEnum,
    h.cpuSubtype.translation "CPU Sub Type" h.cpuSubtype.value.name 4 .numberEnum,
    h.machoType.translation "Macho Type" h.machoType.value.readable 4 .numberEnum,
    h.numberOfLoadCommands.translation "Number of load commands"
      (decimal h.numberOfLoadCommands.value.toNat) 4 .uint32,
    h.sizeOfAllLoadCommand.translation "Size of all load commands"
      (hex h.sizeOfAllLoadCommand.value.toNat) 4 .uint32,
    h.flags.translation "Flags" (flagsDescriptionFrom h.flags.value) 4 .flags] ++
    (h.reserved.toList.map fun r => r.translation "Reverved" (hex r.value.toNat) 4 .uint32)]

/-- The header at the start of `d`. -/
def MachoHeader.layout (is64Bit : Bool) (d : Data) : MachoHeader where
  data := d
  is64Bit := is64Bit
  magicData := d.window 0 4
  cpuType := (d.uint32At 4).map CPUType.init
  cpuSubtype := (d.uint32At 8).map fun v => CPUSubtype.init v (CPUType.init (d.uint32At 4).value)
  machoType := (d.uint32At 12).map MachoType.init
  numberOfLoadCommands := d.uint32At 16
  sizeOfAllLoadCommand := d.uint32At 20
  flags := d.uint32At 24
  reserved := if is64Bit then some (d.uint32At 28) else none

theorem machoHeaderSize_pos (is64Bit : Bool) : 0 < machoHeaderSize is64Bit := by
  cases is64Bit <;> decide

/-- **`MachoHeader.init`**: it returns exactly when the header is there. -/
theorem machoHeader_init_eq_ok {is64Bit : Bool} {machoData : Data} {h : MachoHeader} :
    MachoHeader.init machoData is64Bit = .ok h ↔ machoHeaderSize is64Bit ≤ machoData.count ∧
      h = MachoHeader.layout is64Bit (machoData.window 0 (machoHeaderSize is64Bit)) := by
  unfold MachoHeader.init
  rw [bind_of_eq_ok fun r => subSequence_eq_ok (d := machoData).trans and_assoc.symm]
  rw [Nat.zero_add, and_iff_right (machoHeaderSize_pos is64Bit)]
  refine and_congr_right fun hfit => ?_
  have hcount : (machoData.window 0 (machoHeaderSize is64Bit)).count = machoHeaderSize is64Bit :=
    window_count _ (by rwa [Nat.zero_add])
  generalize machoData.window 0 (machoHeaderSize is64Bit) = d at hcount
  rw [init_eq, shift_bind (n := 4) rfl]
  cases is64Bit
  all_goals
    simp (disch := decide) only [Nat.zero_add, Nat.reduceAdd, shiftUInt32_bind, bind_assoc,
      Bool.false_eq_true, reduceIte, pure_eq_ok, ok_bind, Except.ok.injEq, le_absorb, hcount,
      machoHeaderSize]
    simp [MachoHeader.layout, eq_comm]

/-- **The translations show the header.** -/
theorem machoHeader_shown {is64Bit : Bool} {machoData : Data} {h : MachoHeader}
    {gs : List TranslationGroup} (hi : MachoHeader.init machoData is64Bit = .ok h)
    (hgs : h.runTranslating = .ok gs) : Shown h.data.startIndex h.data.endIndex gs.flatten := by
  obtain ⟨hfit, rfl⟩ := machoHeader_init_eq_ok.mp hi
  have hcount : (machoData.window 0 (machoHeaderSize is64Bit)).count = machoHeaderSize is64Bit :=
    window_count _ (by rwa [Nat.zero_add])
  generalize machoData.window 0 (machoHeaderSize is64Bit) = d at hcount hgs ⊢
  have hmagic : (d.window 0 4).span = Span.of (d.startIndex + 0) 4 := by
    refine window_span d ?_
    rw [hcount]
    cases is64Bit <;> decide
  unfold MachoHeader.runTranslating at hgs
  simp only [bind_eq_ok] at hgs
  obtain ⟨b0, _, b1, _, b2, _, b3, _, hgs⟩ := hgs
  cases hgs
  cases is64Bit <;>
    simp [MachoHeader.layout, Shown, hmagic, Data.endIndex, hcount, machoHeaderSize, Nat.add_assoc]

end Mocha
