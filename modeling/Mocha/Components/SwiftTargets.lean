import Mocha.Components.SwiftMetadata

/-!
# The targets of Swift metadata

`swiftMetadata(at:)` compares a target with both ends of `__TEXT,__const` and then cuts a descriptor
out of that section. The comparison is strict at the first byte and does not count the bytes of the
descriptor at the last ones, so a descriptor at the very beginning is not found and one that begins in
the section but ends behind it traps.

**`initSwiftMetadata_targets_iff`**: every container has the descriptor it points to, whatever the
descriptor is, iff no target is at one of these two places.
-/

namespace Mocha

open Lib Data DataShifter

/-- A descriptor with a fixed layout: what its `dataSize` bytes decode to. -/
class DescriptorLayout (MetaData : Type) [SwiftMetadata MetaData] where
  decode : Data → MetaData
  dataSize_pos : 0 < SwiftMetadata.dataSize MetaData
  init_eq {d : Data} (h : d.count = SwiftMetadata.dataSize MetaData) :
    SwiftMetadata.init d = .ok (decode d)

/-- The six fields of a `ProtocolDescriptor`. -/
def ProtocolDescriptor.layout (d : Data) : ProtocolDescriptor :=
  ⟨(d.uint32At 0).value, (d.int32At 4).value, (d.int32At 8).value, (d.uint32At 12).value,
    (d.uint32At 16).value, (d.int32At 20).value⟩

/-- The four fields of a `ProtocolConformanceDescriptor`. -/
def ProtocolConformanceDescriptor.layout (d : Data) : ProtocolConformanceDescriptor :=
  ⟨(d.int32At 0).value, (d.int32At 4).value, (d.int32At 8).value, (d.uint32At 12).value⟩

theorem protocolDescriptor_init {d : Data} (h : d.count = 24) :
    ProtocolDescriptor.init d = .ok (ProtocolDescriptor.layout d) := by
  unfold ProtocolDescriptor.init
  simp (disch := decide) only [guardElse_bind, beq_iff_eq, init_eq, shiftUInt32_bind, shiftInt32_bind,
    pure_eq_ok, Nat.reduceAdd, Nat.zero_add, le_absorb]
  exact ⟨h, h.ge, rfl⟩

theorem protocolConformanceDescriptor_init {d : Data} (h : d.count = 16) :
    ProtocolConformanceDescriptor.init d = .ok (ProtocolConformanceDescriptor.layout d) := by
  unfold ProtocolConformanceDescriptor.init
  simp (disch := decide) only [guardElse_bind, beq_iff_eq, init_eq, shiftUInt32_bind, shiftInt32_bind,
    pure_eq_ok, Nat.reduceAdd, Nat.zero_add, le_absorb]
  exact ⟨h, h.ge, rfl⟩

instance : DescriptorLayout ProtocolDescriptor where
  decode := ProtocolDescriptor.layout
  dataSize_pos := by decide
  init_eq := protocolDescriptor_init

instance : DescriptorLayout ProtocolConformanceDescriptor where
  decode := ProtocolConformanceDescriptor.layout
  dataSize_pos := by decide
  init_eq := protocolConformanceDescriptor_init

/-! ## Where the offsets point to -/

/-- Where the offset at place `index` points to. -/
def swiftTarget (d : Data) (index : Nat) : Int :=
  (d.startIndex : Int) + 4 * index + (d.int32At (4 * index)).value.toInt

/-- `size` bytes at `target` all lie in the section. -/
def DescriptorInside (textConst : Data) (size : Nat) (target : Int) : Prop :=
  (textConst.startIndex : Int) ≤ target ∧ target + size ≤ textConst.endIndex

/-- The two places where the comparison is wrong: the first byte of a section with room for a
descriptor, and the last bytes, where it has none. -/
def AtEdge (textConst : Data) (size : Nat) (target : Int) : Prop :=
  (target = textConst.startIndex ∧ size ≤ textConst.count) ∨
    ((textConst.startIndex : Int) < target ∧ target < textConst.endIndex ∧
      (textConst.endIndex : Int) < target + size)

instance (t : Data) (n : Nat) (p : Int) : Decidable (DescriptorInside t n p) :=
  inferInstanceAs (Decidable (_ ∧ _))

instance (t : Data) (n : Nat) (p : Int) : Decidable (AtEdge t n p) :=
  inferInstanceAs (Decidable (_ ∨ _))

section Targets

variable {MetaData : Type} [SwiftMetadata MetaData] [DescriptorLayout MetaData]

/-- The descriptor at `target` when all of it lies in `__TEXT,__const`. -/
def describedAt (v : MachoView) (target : Int) : Option MetaData :=
  v.textConst.bind fun t =>
    if DescriptorInside t (SwiftMetadata.dataSize MetaData) target then
      some (DescriptorLayout.decode
        (t.window (target - t.startIndex).toNat (SwiftMetadata.dataSize MetaData)))
    else none

/-- `runInitializing()` returns, and every container has the descriptor it points to. -/
def TargetsFound (MetaData : Type) [SwiftMetadata MetaData] [DescriptorLayout MetaData] (v : MachoView)
    (d : Data) : Prop :=
  ∃ cs : List (SwiftMetadataContainer MetaData), initSwiftMetadata v d = .ok cs ∧
    cs.map (fun c => (c.targetOffsetInMacho, c.associatedMetadata)) =
      (List.range (d.count / 4)).map fun i => (swiftTarget d i, describedAt v (swiftTarget d i))

omit [SwiftMetadata MetaData] [DescriptorLayout MetaData] in
theorem subSequence_over {d : Data} {k n : Nat} (h : ¬ k + n ≤ d.count) :
    d.subSequence k n = .error .fatalError := by
  unfold subSequence subSequenceAllowing
  by_cases hn : n = 0 <;> simp [guardElse, fatalError, h, hn]

/-- What the strict comparison makes of the section. -/
theorem swiftMetadata_some {v : MachoView} {t : Data} (ht : v.textConst = some t) (target : Int) :
    (swiftMetadata v target : Run (Option MetaData)) =
      if (t.startIndex : Int) < target ∧ target < t.endIndex then
        if target + SwiftMetadata.dataSize MetaData ≤ t.endIndex then
          .ok (some (DescriptorLayout.decode
            (t.window (target - t.startIndex).toNat (SwiftMetadata.dataSize MetaData))))
        else .error .fatalError
      else .ok none := by
  unfold swiftMetadata
  rw [ht]
  by_cases hin : (t.startIndex : Int) < target ∧ target < t.endIndex
  · simp only [hin, and_self, if_true]
    unfold endIndex at *
    have hpos : 0 < SwiftMetadata.dataSize MetaData := DescriptorLayout.dataSize_pos
    by_cases hroom : target + SwiftMetadata.dataSize MetaData ≤ (t.startIndex + t.count : Nat)
    · have hfit : (target - t.startIndex).toNat + SwiftMetadata.dataSize MetaData ≤ t.count := by omega
      rw [if_pos hroom, subSequence_ok hpos hfit, ok_bind,
        DescriptorLayout.init_eq (window_count t hfit)]
      rfl
    · have hover : ¬ (target - t.startIndex).toNat + SwiftMetadata.dataSize MetaData ≤ t.count := by
        omega
      rw [if_neg hroom, subSequence_over hover]
      rfl
  · rw [if_neg hin]
    exact if_neg hin

/-- **One target**: the right descriptor or none, unless the target is at an edge. -/
theorem swiftMetadata_described_iff (v : MachoView) (target : Int) :
    (swiftMetadata v target : Run (Option MetaData)) = .ok (describedAt v target) ↔
      ∀ t ∈ v.textConst, ¬ AtEdge t (SwiftMetadata.dataSize MetaData) target := by
  cases ht : v.textConst with
  | none =>
    unfold swiftMetadata describedAt
    rw [ht]
    exact iff_of_true rfl nofun
  | some t =>
    have hpos : 0 < SwiftMetadata.dataSize MetaData := DescriptorLayout.dataSize_pos
    rw [swiftMetadata_some ht, describedAt, ht]
    simp only [Option.bind_some, Option.mem_some_iff, forall_eq']
    have hend : (t.endIndex : Int) = t.startIndex + t.count := by simp [endIndex]
    unfold AtEdge
    by_cases hin : (t.startIndex : Int) < target ∧ target < t.endIndex
    · rw [if_pos hin]
      by_cases hroom : target + SwiftMetadata.dataSize MetaData ≤ t.endIndex
      · have hinside : DescriptorInside t (SwiftMetadata.dataSize MetaData) target :=
          ⟨hin.1.le, hroom⟩
        rw [if_pos hroom, if_pos hinside]
        exact iff_of_true rfl (by omega)
      · rw [if_neg hroom]
        exact iff_of_false nofun (by omega)
    · rw [if_neg hin]
      by_cases hinside : DescriptorInside t (SwiftMetadata.dataSize MetaData) target
      · rw [if_pos hinside]
        unfold DescriptorInside at hinside
        exact iff_of_false nofun (by omega)
      · rw [if_neg hinside]
        unfold DescriptorInside at hinside
        exact iff_of_true rfl (by omega)

omit [DescriptorLayout MetaData] in
/-- The container at place `i`. -/
theorem swiftMetadataContainer_eq {v : MachoView} {d : Data} {i : Nat} (hi : i < d.count / 4) :
    (swiftMetadataContainer v d i : Run (SwiftMetadataContainer MetaData)) =
      (swiftMetadata v (swiftTarget d i) >>= fun m =>
        .ok ⟨d.int32At (4 * i), swiftTarget d i, m⟩) := by
  have hle : 4 * i + 4 ≤ d.count := by omega
  unfold swiftMetadataContainer swiftTarget
  simp only [Nat.mul_comm i 4, subSequence_ok (Nat.succ_pos 3) hle, ok_bind, int32_window hle,
    Nat.cast_mul, Nat.cast_ofNat, pure_eq_ok]

/-- The targets are found iff each of them is. -/
theorem targetsFound_iff {v : MachoView} {d : Data} (hwhole : d.count % 4 = 0) :
    TargetsFound MetaData v d ↔ ∀ i < d.count / 4,
      (swiftMetadata v (swiftTarget d i) : Run (Option MetaData)) =
        .ok (describedAt v (swiftTarget d i)) := by
  unfold TargetsFound initSwiftMetadata
  simp only [guardElse_bind, beq_iff_eq, hwhole, true_and, mapM_eq_ok]
  constructor
  · rintro ⟨cs, hcs, hpairs⟩ i hi
    obtain ⟨c, hc, heq⟩ := forall₂_getElem? hcs (List.getElem?_range hi)
    have hpair := congrArg (fun l => l[i]?) hpairs
    simp only [List.getElem?_map, hc, List.getElem?_range hi, Option.map_some,
      Option.some.injEq, Prod.mk.injEq] at hpair
    rw [swiftMetadataContainer_eq hi, bind_eq_ok] at heq
    obtain ⟨m, hm, heq⟩ := heq
    cases heq
    rw [hm, ← hpair.2]
  · intro h
    refine ⟨(List.range (d.count / 4)).map fun i => ⟨d.int32At (4 * i), swiftTarget d i,
      describedAt v (swiftTarget d i)⟩, ?_, ?_⟩
    · rw [List.forall₂_map_right_iff, List.forall₂_same]
      intro i hi
      have hi := List.mem_range.mp hi
      rw [swiftMetadataContainer_eq hi, h i hi, ok_bind]
    · rw [List.map_map]
      rfl

/-- **Every container has the descriptor it points to** iff no target is at an edge. -/
theorem initSwiftMetadata_targets_iff {v : MachoView} {d : Data} (hwhole : d.count % 4 = 0) :
    TargetsFound MetaData v d ↔ ∀ t ∈ v.textConst, ∀ i < d.count / 4,
      ¬ AtEdge t (SwiftMetadata.dataSize MetaData) (swiftTarget d i) := by
  rw [targetsFound_iff hwhole]
  simp only [swiftMetadata_described_iff]
  exact ⟨fun h t ht i hi => h i hi t ht, fun h i hi t ht => h t ht i hi⟩

end Targets

/-- A file with a `__TEXT,__const` of 32 bytes at 8. -/
def textConstView : MachoView :=
  { MachoView.empty with textConst := some ⟨8, List.replicate 16 0 ++ [1] ++ List.replicate 15 0⟩ }

/-- One offset at 4, which points to the given place. -/
def oneOffset (relative : UInt8) : Data := ⟨4, [relative, 0, 0, 0]⟩

theorem initSwiftMetadata_targets_iff_inside :
    TargetsFound ProtocolConformanceDescriptor textConstView (oneOffset 8) ∧
      TargetsFound ProtocolDescriptor textConstView (oneOffset 8) ∧
      describedAt textConstView 12 = some (⟨0, 0, 0, 1⟩ : ProtocolConformanceDescriptor) :=
  ⟨(initSwiftMetadata_targets_iff rfl).mpr (by decide),
    (initSwiftMetadata_targets_iff rfl).mpr (by decide), by decide⟩

/-- A descriptor at the first byte is not found; one byte past the last place for one traps. -/
theorem edges_missed :
    initSwiftMetadata textConstView (oneOffset 4) =
        .ok [(⟨⟨4, ⟨4, 8⟩⟩, 8, none⟩ : SwiftMetadataContainer ProtocolConformanceDescriptor)] ∧
      describedAt textConstView 8 = some (⟨0, 0, 0, 0⟩ : ProtocolConformanceDescriptor) ∧
      (initSwiftMetadata textConstView (oneOffset 21) :
        Run (List (SwiftMetadataContainer ProtocolConformanceDescriptor))) = .error .fatalError ∧
      ¬ TargetsFound ProtocolConformanceDescriptor textConstView (oneOffset 4) ∧
      ¬ TargetsFound ProtocolConformanceDescriptor textConstView (oneOffset 21) := by
  have hfirst : initSwiftMetadata textConstView (oneOffset 4) =
      .ok [(⟨⟨4, ⟨4, 8⟩⟩, 8, none⟩ : SwiftMetadataContainer ProtocolConformanceDescriptor)] := by
    decide +kernel
  have hlast : (initSwiftMetadata textConstView (oneOffset 21) :
      Run (List (SwiftMetadataContainer ProtocolConformanceDescriptor))) = .error .fatalError := by
    decide +kernel
  refine ⟨hfirst, by decide, hlast, ?_, ?_⟩
  · rintro ⟨cs, hcs, hpairs⟩
    rw [hfirst] at hcs
    cases hcs
    revert hpairs
    decide
  · rintro ⟨cs, hcs, -⟩
    rw [hlast] at hcs
    cases hcs

end Mocha
