import Mocha.Components.Symbols

/-!
# Swift metadata sections (`SwiftMetadataComponent.swift`)

The section is a list of signed 32-bit offsets, each relative to its own place in the file. When the
target lies in `__TEXT,__const`, the descriptor there is decoded too; only whether it was found is
shown.

`swiftMetadata_shown`: the offsets, in order, are the data.
-/

namespace Mocha

open Lib Data DataShifter

/-- `SwiftMetadata`. -/
class SwiftMetadata (MetaData : Type) where
  dataSize : Nat
  /-- `init(data:)` -/
  init : Data → Run MetaData

/-- `ProtocolDescriptor`. -/
structure ProtocolDescriptor where
  flags : UInt32
  parent : Int32
  name : Int32
  numRequirementsInSignature : UInt32
  numRequirements : UInt32
  associatedTypeNames : Int32
  deriving DecidableEq

/-- `ProtocolDescriptor(data:)`. -/
def ProtocolDescriptor.init (data : Data) : Run ProtocolDescriptor := do
  guardElse (data.count == 24)
  let s := DataShifter.init data
  let (flags, s) ← s.shiftUInt32
  let (parent, s) ← s.shiftInt32
  let (name, s) ← s.shiftInt32
  let (numRequirementsInSignature, s) ← s.shiftUInt32
  let (numRequirements, s) ← s.shiftUInt32
  let (associatedTypeNames, _) ← s.shiftInt32
  return ⟨flags.value, parent.value, name.value, numRequirementsInSignature.value,
    numRequirements.value, associatedTypeNames.value⟩

instance : SwiftMetadata ProtocolDescriptor := ⟨24, ProtocolDescriptor.init⟩

/-- `ProtocolConformanceDescriptor`. -/
structure ProtocolConformanceDescriptor where
  protocolDescriptor : Int32
  nominalTypeDescriptor : Int32
  protocolWitnessTable : Int32
  conformanceFlags : UInt32
  deriving DecidableEq

/-- `ProtocolConformanceDescriptor(data:)`. -/
def ProtocolConformanceDescriptor.init (data : Data) : Run ProtocolConformanceDescriptor := do
  guardElse (data.count == 16)
  let s := DataShifter.init data
  let (protocolDescriptor, s) ← s.shiftInt32
  let (nominalTypeDescriptor, s) ← s.shiftInt32
  let (protocolWitnessTable, s) ← s.shiftInt32
  let (conformanceFlags, _) ← s.shiftUInt32
  return ⟨protocolDescriptor.value, nominalTypeDescriptor.value, protocolWitnessTable.value,
    conformanceFlags.value⟩

instance : SwiftMetadata ProtocolConformanceDescriptor := ⟨16, ProtocolConformanceDescriptor.init⟩

/-- `SwiftMetadataContainer`. -/
structure SwiftMetadataContainer (MetaData : Type) where
  rawOffsetValue : Field Int32
  targetOffsetInMacho : Int
  associatedMetadata : Option MetaData
  deriving DecidableEq

section Component

variable {MetaData : Type} [SwiftMetadata MetaData]

/-- `swiftMetadata(at:)`. -/
def swiftMetadata (v : MachoView) (targetOffsetInMacho : Int) : Run (Option MetaData) :=
  match v.textConst with
  | none => .ok none
  | some textConst =>
    if (textConst.startIndex : Int) < targetOffsetInMacho ∧
        targetOffsetInMacho < textConst.endIndex then do
      let data ← textConst.subSequence (targetOffsetInMacho - textConst.startIndex).toNat
        (SwiftMetadata.dataSize MetaData)
      return some (← SwiftMetadata.init data)
    else .ok none

/-- The closure of `(0..<numberOfOffsets).map { … }`. -/
def swiftMetadataContainer (v : MachoView) (d : Data) (index : Nat) :
    Run (SwiftMetadataContainer MetaData) := do
  let offsetOfCurrentValue := index * 4
  let offsetValue ← (← d.subSequence offsetOfCurrentValue 4).int32
  let targetOffsetInMacho := (d.startIndex : Int) + offsetOfCurrentValue + offsetValue.value.toInt
  return ⟨offsetValue, targetOffsetInMacho, ← swiftMetadata v targetOffsetInMacho⟩

/-- `SwiftMetadataComponent.runInitializing()`. -/
def initSwiftMetadata (v : MachoView) (d : Data) : Run (List (SwiftMetadataContainer MetaData)) := do
  guardElse (d.count % 4 == 0)
  (List.range (d.count / 4)).mapM (swiftMetadataContainer v d)

omit [SwiftMetadata MetaData] in
/-- The translation of one container. -/
def SwiftMetadataContainer.translation (c : SwiftMetadataContainer MetaData) : GeneralTranslation :=
  (c.rawOffsetValue.translation "Offset Value" (toString c.rawOffsetValue.value.toInt) 4
    .int32).extra
      (some (if c.associatedMetadata.isSome then "Targeting Position in __TEXT,__const"
        else "UNKNOWN position"))
      (some (intHex c.targetOffsetInMacho))

omit [SwiftMetadata MetaData] in
/-- `SwiftMetadataComponent.runTranslating()`. -/
def translateSwiftMetadata (cs : List (SwiftMetadataContainer MetaData)) : List TranslationGroup :=
  [cs.map SwiftMetadataContainer.translation]

theorem swiftMetadataContainer_span {v : MachoView} {d : Data} {i : Nat}
    {c : SwiftMetadataContainer MetaData} (h : swiftMetadataContainer v d i = .ok c) :
    c.rawOffsetValue.span = Span.of (d.startIndex + i * 4) 4 := by
  unfold swiftMetadataContainer at h
  rw [bind_eq_ok] at h
  obtain ⟨w, hw, h⟩ := h
  obtain ⟨_, hle, rfl⟩ := subSequence_eq_ok.mp hw
  rw [int32_window hle, ok_bind, bind_eq_ok] at h
  obtain ⟨metadata, _, h⟩ := h
  cases h
  exact int32At_span d (i * 4)

/-- **The offsets are the data.** -/
theorem swiftMetadata_shown {v : MachoView} {d : Data}
    {cs : List (SwiftMetadataContainer MetaData)} (h : initSwiftMetadata v d = .ok cs) :
    Shown d.startIndex d.endIndex (translateSwiftMetadata cs).flatten := by
  unfold initSwiftMetadata at h
  rw [guardElse_bind, beq_iff_eq] at h
  obtain ⟨hwhole, h⟩ := h
  have hwindows : List.Forall₂
      (fun i ts => Shown (d.startIndex + i * 4) (d.startIndex + (i + 1) * 4) ts)
      (List.range' 0 (d.count / 4)) (cs.map fun c => [c.translation]) := by
    rw [← List.range_eq_range', List.forall₂_map_right_iff]
    refine (mapM_eq_ok.mp h).imp fun i c hc => ⟨swiftMetadataContainer_span hc, ?_⟩
    change d.startIndex + i * 4 + 4 = d.startIndex + (i + 1) * 4
    omega
  have hshown := shown_windows hwindows
  rw [Nat.zero_mul, Nat.add_zero, Nat.zero_add,
    Nat.div_mul_cancel (Nat.dvd_of_mod_eq_zero hwhole)] at hshown
  rw [translateSwiftMetadata, List.flatten_cons, List.flatten_nil, List.append_nil,
    List.map_eq_flatMap, List.flatMap_def]
  exact hshown

end Component

end Mocha
