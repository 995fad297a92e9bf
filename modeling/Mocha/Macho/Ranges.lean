import Mocha.Macho.Slices

/-!
# The ranges of the components

`fixTranslationDataRange` recomputes every highlighted range from byte counts that are written apart
from the reads. `Decoded` are the components with a decoder for all of their data, as the program
builds them: from any data where the constructor takes any, and from the command that cuts the slice
where the number of entries is the command's.

**`decoded_tiledBy`**: whatever the component could see of the other ones while it was initialized and
while it was shown, its ranges tile it and each is the interval its field was read from.
-/

namespace Mocha

open Lib Data

/-- The components with a decoder for all of their data. -/
inductive Decoded : MachoComponent → Prop
  | machoHeader {machoData : Data} {is64Bit : Bool} {header : MachoHeader}
      (hi : MachoHeader.init machoData is64Bit = .ok header) : Decoded header.component
  | symbolTable {command : LCSymbolTable} {machoData : Data} {is64Bit : Bool} {c : MachoComponent}
      (hi : command.symbolTable machoData is64Bit = .ok c) : Decoded c
  | indirectSymbolTable {command : LCDynamicSymbolTable} {machoData : Data} {is64Bit : Bool}
      {c : MachoComponent} (hi : command.indirectSymbolTable machoData is64Bit = .ok (some c)) :
      Decoded c
  | dataInCode {title : String} {d : Data} {is64Bit : Bool} (hwhole : d.count % 8 = 0) :
      Decoded ⟨title, none, d, .dataInCode is64Bit⟩
  | relocationTable {segment : LCSegment} {machoData : Data} {c : MachoComponent}
      (hi : segment.relocationComponent machoData = .ok (some c)) : Decoded c
  | rebase {title : String} {d : Data} : Decoded ⟨title, none, d, .rebase⟩
  | bind {title : String} {d : Data} : Decoded ⟨title, none, d, .bind⟩
  | cStringSection {title : String} {d : Data} {a : UInt64} :
      Decoded ⟨title, none, d, .cStringSection a⟩
  | stringTable {title : String} {d : Data} : Decoded ⟨title, none, d, .stringTable⟩
  | functionStarts {title : String} {d : Data} {a : UInt64} {c : MachoComponent}
      (hi : functionStartsComponent d title a = .ok c) : Decoded c
  | literalPointer {title : String} {d : Data} {is64Bit : Bool} {c : MachoComponent}
      (hi : pointerComponent d is64Bit title (.literalPointer is64Bit) = .ok c) : Decoded c
  | symbolPointer {title : String} {d : Data} {is64Bit : Bool} {type : SectionType} {start : Nat}
      {c : MachoComponent}
      (hi : pointerComponent d is64Bit title (.symbolPointer is64Bit type start) = .ok c) :
      Decoded c
  | protocolDescriptors {title : String} {d : Data} {a : UInt64} :
      Decoded ⟨title, none, d, .protocolDescriptors a⟩
  | protocolConformances {title : String} {d : Data} {a : UInt64} :
      Decoded ⟨title, none, d, .protocolConformances a⟩

theorem symbolTable_whole {t : LCSymbolTable} {machoData : Data} {is64Bit : Bool}
    {c : MachoComponent} (h : t.symbolTable machoData is64Bit = .ok c) :
    c.kind = .symbolTable is64Bit ∧ c.data.count % modelSize SymbolTableEntry is64Bit = 0 := by
  obtain ⟨hfit, rfl⟩ := symbolTable_eq_ok h
  refine ⟨rfl, ?_⟩
  rw [window_count _ hfit]
  cases is64Bit <;> exact Nat.mul_mod_left _ _

theorem indirectSymbolTable_whole {t : LCDynamicSymbolTable} {machoData : Data} {is64Bit : Bool}
    {c : MachoComponent} (h : t.indirectSymbolTable machoData is64Bit = .ok (some c)) :
    c.kind = .indirectSymbolTable is64Bit ∧
      c.data.count % modelSize IndirectSymbolTableEntry is64Bit = 0 := by
  obtain ⟨_, hnone⟩ | ⟨offset, size, hplace, hfit, hc⟩ := indirectSymbolTable_eq_ok h
  · cases hnone
  · cases hc
    refine ⟨rfl, ?_⟩
    unfold LCDynamicSymbolTable.indirectPlace at hplace
    split at hplace
    · cases hplace
    · cases hplace
      rw [window_count _ hfit]
      cases is64Bit <;> exact Nat.mul_mod_right _ _

theorem relocationComponent_eq_ok {s : LCSegment} {machoData : Data} {c : MachoComponent}
    (h : s.relocationComponent machoData = .ok (some c)) :
    ∃ infos, s.relocationTable machoData = .ok (some (c.data, infos)) ∧
      c.kind = .relocationTable infos := by
  unfold LCSegment.relocationComponent at h
  rw [bind_eq_ok] at h
  obtain ⟨table, htable, h⟩ := h
  cases table with
  | none => cases h
  | some t =>
    cases h
    exact ⟨t.2, htable, rfl⟩

/-- **The ranges of a decoded component tile it**, and each is the interval its field was read
from. -/
theorem decoded_tiledBy {c : MachoComponent} (hc : Decoded c) {stack : Nat} {v w : MachoView}
    {s : ComponentState} {gs : List TranslationGroup} (hinit : c.runInitializing stack v = .ok s)
    (hgs : c.runTranslating w s = .ok gs) :
    TiledBy c.offsetInMacho (c.offsetInMacho + c.dataSize)
      (fixTranslationDataRange c.offsetInMacho gs) := by
  refine tiledBy_of_shown ?_
  change Shown c.data.startIndex c.data.endIndex gs.flatten
  unfold MachoComponent.runInitializing at hinit
  unfold MachoComponent.runTranslating at hgs
  cases hc with
  | machoHeader hi => exact machoHeader_shown hi hgs
  | symbolTable hi =>
    obtain ⟨hkind, hwhole⟩ := symbolTable_whole hi
    rw [hkind, bind_eq_ok] at hinit
    obtain ⟨table, htable, hinit⟩ := hinit
    cases hinit
    unfold SymbolTable.runInitializing at htable
    rw [bind_eq_ok] at htable
    obtain ⟨models, hmodels, htable⟩ := htable
    cases htable
    rw [hkind] at hgs
    exact models_shown hwhole hmodels hgs
  | indirectSymbolTable hi =>
    obtain ⟨hkind, hwhole⟩ := indirectSymbolTable_whole hi
    rw [hkind, bind_eq_ok] at hinit
    obtain ⟨models, hmodels, hinit⟩ := hinit
    cases hinit
    rw [hkind] at hgs
    exact models_shown hwhole hmodels hgs
  | @dataInCode _ _ is64Bit hwhole =>
    rw [bind_eq_ok] at hinit
    obtain ⟨models, hmodels, hinit⟩ := hinit
    cases hinit
    refine models_shown ?_ hmodels hgs
    cases is64Bit <;> exact hwhole
  | relocationTable hi =>
    obtain ⟨infos, htable, hkind⟩ := relocationComponent_eq_ok hi
    rw [hkind, bind_eq_ok] at hinit
    obtain ⟨entries, hentries, hinit⟩ := hinit
    cases hinit
    rw [hkind] at hgs
    cases hgs
    exact relocations_shown htable hentries
  | rebase =>
    rw [bind_eq_ok] at hinit
    obtain ⟨ops, hops, hinit⟩ := hinit
    cases hinit
    cases hgs
    rw [← List.flatMap_def]
    exact operationCodes_shown hops
  | bind =>
    rw [bind_eq_ok] at hinit
    obtain ⟨ops, hops, hinit⟩ := hinit
    cases hinit
    cases hgs
    rw [← List.flatMap_def]
    exact operationCodes_shown hops
  | cStringSection =>
    rw [bind_eq_ok] at hinit
    obtain ⟨strings, hstrings, hinit⟩ := hinit
    cases hinit
    cases hgs
    exact cStrings_shown hstrings
  | stringTable =>
    rw [bind_eq_ok] at hinit
    obtain ⟨strings, hstrings, hinit⟩ := hinit
    cases hinit
    cases hgs
    exact cStrings_shown hstrings
  | functionStarts hi =>
    obtain ⟨starts, hstarts, rfl⟩ := functionStartsComponent_eq_ok hi
    exact functionStarts_shown hstarts hgs
  | literalPointer hi =>
    obtain ⟨_, rfl⟩ := pointerComponent_eq_ok hi
    rw [bind_eq_ok] at hinit
    obtain ⟨pointers, hpointers, hinit⟩ := hinit
    cases hinit
    exact pointers_shown (fun _ _ _ ht => literalPointerTranslation_shows ht) hpointers hgs
  | symbolPointer hi =>
    obtain ⟨_, rfl⟩ := pointerComponent_eq_ok hi
    rw [bind_eq_ok] at hinit
    obtain ⟨pointers, hpointers, hinit⟩ := hinit
    cases hinit
    exact pointers_shown (fun _ _ _ ht => symbolPointerTranslation_shows ht) hpointers hgs
  | protocolDescriptors =>
    rw [bind_eq_ok] at hinit
    obtain ⟨containers, hcontainers, hinit⟩ := hinit
    cases hinit
    cases hgs
    exact swiftMetadata_shown hcontainers
  | protocolConformances =>
    rw [bind_eq_ok] at hinit
    obtain ⟨containers, hcontainers, hinit⟩ := hinit
    cases hinit
    cases hgs
    exact swiftMetadata_shown hcontainers

/-- The string table of `functionFile`: a NUL, then the name with its NUL. -/
def functionFileStrings : MachoComponent := ⟨"String Table", none, ⟨240, [0, 0x66, 0]⟩, .stringTable⟩

theorem decoded_tiledBy_stringTable :
    ∃ s gs, functionFileStrings.runInitializing 0 MachoView.empty = .ok s ∧
      functionFileStrings.runTranslating MachoView.empty s = .ok gs ∧ gs.flatten.length = 2 ∧
      TiledBy 240 243 (fixTranslationDataRange 240 gs) := by
  have hpieces : (functionFileStrings.runInitializing 0 MachoView.empty).toOption.map
      (fun s => s.cStrings.cStrings.length) = some 2 := by decide +kernel
  cases hs : functionFileStrings.runInitializing 0 MachoView.empty with
  | error e =>
    rw [hs] at hpieces
    cases hpieces
  | ok s =>
    rw [hs] at hpieces
    refine ⟨s, s.cStrings.runTranslating, rfl, rfl, ?_, ?_⟩
    · have hlength := Option.some.inj hpieces
      simpa [CStrings.runTranslating] using hlength
    · exact decoded_tiledBy (w := MachoView.empty) .stringTable hs rfl

end Mocha
