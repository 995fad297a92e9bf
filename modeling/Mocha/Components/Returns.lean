import Mocha.Components.CStringPieces
import Mocha.Components.ExportWalk
import Mocha.Components.FunctionStarts
import Mocha.Components.OpcodeGrammar
import Mocha.Components.Pointer
import Mocha.Components.RelocatedSections
import Mocha.Components.SwiftTargets
import Mocha.Components.SymbolIndex
import Mocha.Components.UString
import Mocha.LoadCommand.Ranges
import Mocha.Macho.Header

/-!
# The components whose work returns

The two methods of a component, `runInitializing` and `runTranslating`, trap on data they do not expect.
Here is, kind by kind, which data that is. Some kinds never trap: the header, the load commands, the UTF-16
strings and the relocation tables that were cut out of the file. For the others there is one equivalence
each, `…_returns_iff`, in terms of the bytes and of what the component sees of the others.
-/

namespace Mocha

open Lib Data DataShifter

/-! ## Work that always returns -/

theorem machoHeader_translates {machoData : Data} {is64Bit : Bool} {header : MachoHeader}
    (h0 : machoData.startIndex = 0) (hheader : MachoHeader.init machoData is64Bit = .ok header) :
    ∃ gs, header.runTranslating = .ok gs := by
  obtain ⟨hfit, rfl⟩ := machoHeader_init_eq_ok.mp hheader
  have hsize : 4 ≤ machoHeaderSize is64Bit := by cases is64Bit <;> decide
  have hmagic : (machoData.window 0 (machoHeaderSize is64Bit)).window 0 4 = machoData.window 0 4 :=
    machoData.window_window hsize
  have hcount : (machoData.window 0 4).count = 4 := window_count _ (by omega)
  have hbyte : ∀ i < 4, ∃ b, (machoData.window 0 4).byteAt i = .ok b := by
    intro i hi
    have hlt : i < (machoData.window 0 4).bytes.length := Nat.lt_of_lt_of_eq hi hcount.symm
    have hget := List.getElem?_eq_getElem hlt
    have hread := byteAt_eq_ok.mpr ⟨_, hget, rfl⟩
    rw [window_startIndex, h0, Nat.zero_add] at hread
    exact ⟨_, hread⟩
  obtain ⟨b0, h0⟩ := hbyte 0 (by decide)
  obtain ⟨b1, h1⟩ := hbyte 1 (by decide)
  obtain ⟨b2, h2⟩ := hbyte 2 (by decide)
  obtain ⟨b3, h3⟩ := hbyte 3 (by decide)
  unfold MachoHeader.runTranslating
  simp only [MachoHeader.layout, hmagic, h0, h1, h2, h3, ok_bind]
  exact ⟨_, rfl⟩

/-- A command that was read can be shown. -/
theorem loadCommand_translates {d : Data} {k : Nat} {c : LoadCommand} (h : CommandAt d k c) :
    ∃ gs, c.runTranslating = .ok gs := by
  have hts : ∃ ts, c.commandTranslations = .ok ts := by
    have hmade := made_of_init h.body
    unfold LoadCommand.commandTranslations
    cases hbody : c.body <;> rw [hbody] at hmade
    case minOSVersion b =>
      obtain ⟨-, os, hos⟩ := hmade
      exact minOSVersion_translates hos
    case linkerOption b => exact linkerOption_translates hmade
    case dylib b => exact dylib_translates hmade
    case monoString b => exact monoString_translates hmade
    all_goals exact ⟨_, rfl⟩
  obtain ⟨ts, hts⟩ := hts
  exact ⟨_, runTranslating_eq_ok hts⟩

theorem uStrings_translate {d : Data} {ps : List UStringPosition} (h : initUStrings d = .ok ps) :
    ∃ gs, translateUStrings d ps = .ok gs := by
  obtain ⟨ps', hps, hcuts⟩ := initUStrings_cuts d
  rw [h, Except.ok.injEq] at hps
  subst hps
  obtain ⟨ts, hts, -⟩ := translateUStrings_eq_ok hcuts.fits
  exact ⟨_, hts⟩

/-- A relocation table that was cut out of the file has all its entries. -/
theorem relocations_return {c : LCSegment} {machoData d : Data} {infos : List RelocationInfo}
    (h : c.relocationTable machoData = .ok (some (d, infos))) :
    ∃ entries, initRelocations infos d = .ok entries := by
  obtain ⟨start, -, hfit, rfl, rfl⟩ := relocationTable_follow h
  refine ⟨_, readRelocationInfos_eq (k := 0) _ ?_⟩
  rw [length_relocationNames c.relocated, machoData.window_count hfit, Nat.zero_add]
  exact Nat.le_refl _

/-- Data that is a whole number of pointers is read to its end. -/
theorem initPointers_returns {is64Bit : Bool} {d : Data} (h : d.count % addressSize is64Bit = 0) :
    ∃ ps, initPointers is64Bit d = .ok ps := by
  have hpos : 0 < addressSize is64Bit := by cases is64Bit <;> decide
  have hturn : ∀ {s : DataShifter}, (∃ k, k ≤ d.count ∧ addressSize is64Bit ∣ k ∧ s = cursor d k) →
      (pointerLoop is64Bit).more s = true → ∃ x t, (pointerLoop is64Bit).next s = .ok (x, t) ∧
        ∃ k, k ≤ d.count ∧ addressSize is64Bit ∣ k ∧ t = cursor d k := by
    rintro s ⟨k, hk, hdvd, rfl⟩ hm
    have hlt : k < d.count := of_decide_eq_true ((shiftable_cursor d k).symm.trans hm)
    have hle : k + addressSize is64Bit ≤ d.count := by
      have hsub := Nat.le_of_dvd (Nat.sub_pos_of_lt hlt) (Nat.dvd_sub (Nat.dvd_of_mod_eq_zero h) hdvd)
      omega
    exact ⟨_, _, nextPointer_eq_ok.mpr ⟨hle, rfl⟩, _, hle, Nat.dvd_add_self_right.mpr hdvd, rfl⟩
  obtain ⟨ps, u, hrun⟩ := Loop.run_total hturn (s := DataShifter.init d)
    ⟨0, Nat.zero_le _, Nat.dvd_zero _, init_eq d⟩
  unfold initPointers
  rw [hrun]
  exact ⟨_, rfl⟩

/-! ## Swift metadata -/

/-- A descriptor of the given size begins in the section, behind its first byte, and ends outside. -/
def Overhangs (textConst : Data) (size : Nat) (target : Int) : Prop :=
  (textConst.startIndex : Int) < target ∧ target < textConst.endIndex ∧
    (textConst.endIndex : Int) < target + size

section Swift

variable {MetaData : Type} [SwiftMetadata MetaData] [DescriptorLayout MetaData]

theorem swiftMetadata_returns_iff (v : MachoView) (target : Int) :
    (∃ x : Option MetaData, swiftMetadata v target = .ok x) ↔
      ∀ t ∈ v.textConst, ¬ Overhangs t (SwiftMetadata.dataSize MetaData) target := by
  cases ht : v.textConst with
  | none =>
    refine iff_of_true ⟨none, ?_⟩ nofun
    unfold swiftMetadata
    rw [ht]
  | some t =>
    simp only [Option.mem_some_iff, forall_eq', Overhangs]
    rw [swiftMetadata_some ht]
    by_cases hin : (t.startIndex : Int) < target ∧ target < t.endIndex
    · rw [if_pos hin]
      by_cases hroom : target + SwiftMetadata.dataSize MetaData ≤ t.endIndex
      · rw [if_pos hroom]
        exact iff_of_true ⟨_, rfl⟩ (by omega)
      · rw [if_neg hroom]
        exact iff_of_false nofun (by omega)
    · rw [if_neg hin]
      exact iff_of_true ⟨_, rfl⟩ (by omega)

/-- **Swift metadata is read** iff it is a whole number of offsets and no descriptor sticks out of
`__TEXT,__const`. -/
theorem initSwiftMetadata_returns_iff {v : MachoView} {d : Data} :
    (∃ cs : List (SwiftMetadataContainer MetaData), initSwiftMetadata v d = .ok cs) ↔
      d.count % 4 = 0 ∧ ∀ t ∈ v.textConst, ∀ i < d.count / 4,
        ¬ Overhangs t (SwiftMetadata.dataSize MetaData) (swiftTarget d i) := by
  have hone : ∀ i < d.count / 4, (∃ c : SwiftMetadataContainer MetaData,
      swiftMetadataContainer v d i = .ok c) ↔ ∀ t ∈ v.textConst,
        ¬ Overhangs t (SwiftMetadata.dataSize MetaData) (swiftTarget d i) := by
    intro i hi
    rw [swiftMetadataContainer_eq hi, ← swiftMetadata_returns_iff v (swiftTarget d i)]
    constructor
    · rintro ⟨c, hc⟩
      rw [bind_eq_ok] at hc
      obtain ⟨x, hx, -⟩ := hc
      exact ⟨x, hx⟩
    · rintro ⟨x, hx⟩
      rw [hx]
      exact ⟨_, rfl⟩
  unfold initSwiftMetadata
  simp only [guardElse_bind, beq_iff_eq, exists_and_left, exists_mapM_eq_ok, List.mem_range]
  refine and_congr_right fun _ => ?_
  constructor
  · exact fun h t ht i hi => (hone i hi).mp (h i hi) t ht
  · exact fun h i hi => (hone i hi).mpr fun t ht => h t ht i hi

end Swift

/-! ## Tables of records -/

/-- Record `i` of a table. -/
def recordAt (Model : Type) [InterpretableModel Model] (is64Bit : Bool) (d : Data) (i : Nat) : Data :=
  d.window (i * modelSize Model is64Bit) (modelSize Model is64Bit)

/-- How many records a table has. -/
def recordCount (Model : Type) [InterpretableModel Model] (is64Bit : Bool) (d : Data) : Nat :=
  d.count / modelSize Model is64Bit

section Records

variable {Model : Type} [InterpretableModel Model] {is64Bit : Bool} {v : MachoView} {d : Data}

theorem record_fits {i : Nat} (hi : i < recordCount Model is64Bit d) :
    i * modelSize Model is64Bit + modelSize Model is64Bit ≤ d.count := by
  rw [← Nat.succ_mul]
  exact (Nat.mul_le_mul_right _ hi).trans (Nat.div_mul_le_self _ _)

/-- **A table of records is read** iff each record is. -/
theorem initModels_returns_iff (hpos : 0 < modelSize Model is64Bit) :
    (∃ models, initModels Model is64Bit v d = .ok models) ↔ ∀ i < recordCount Model is64Bit d,
      ∃ r : Model, InterpretableModel.init is64Bit v (recordAt Model is64Bit d i) = .ok r := by
  unfold initModels
  rw [exists_mapM_eq_ok]
  simp only [List.mem_range]
  refine forall_congr' fun i => forall_congr' fun hi => ?_
  rw [subSequence_ok hpos (record_fits hi), ok_bind]
  rfl

/-- What holds of all models of a table. -/
theorem forall_initModels (hpos : 0 < modelSize Model is64Bit) {models : List Model}
    (h : initModels Model is64Bit v d = .ok models) {Q : Model → Prop} :
    (∀ r ∈ models, Q r) ↔ ∀ i < recordCount Model is64Bit d, ∀ r : Model,
      InterpretableModel.init is64Bit v (recordAt Model is64Bit d i) = .ok r → Q r := by
  have hrecords := mapM_eq_ok.mp h
  constructor
  · intro hall i hi r hr
    obtain ⟨r', hr', hinit⟩ := forall₂_exists_right hrecords (List.mem_range.mpr hi)
    rw [subSequence_ok hpos (record_fits hi), ok_bind] at hinit
    cases hr.symm.trans hinit
    exact hall r hr'
  · intro hall r hr
    obtain ⟨i, hi, hinit⟩ := forall₂_exists_left hrecords hr
    rw [List.mem_range] at hi
    rw [subSequence_ok hpos (record_fits hi), ok_bind] at hinit
    exact hall i hi r hinit

theorem length_initModels {models : List Model} (h : initModels Model is64Bit v d = .ok models) :
    models.length = recordCount Model is64Bit d := by
  rw [← (mapM_eq_ok.mp h).length_eq, List.length_range]
  rfl

end Records

/-- **Data in code is read** iff every kind is one of the five. -/
theorem dataInCode_returns_iff {is64Bit : Bool} {v : MachoView} {d : Data} :
    (∃ models, initModels DataInCodeModel is64Bit v d = .ok models) ↔
      ∀ i < recordCount DataInCodeModel is64Bit d,
        (DataInCodeKind.ofRaw? ((recordAt DataInCodeModel is64Bit d i).uint16At 6).value).isSome := by
  have hsize : modelSize DataInCodeModel is64Bit = 8 := by cases is64Bit <;> rfl
  rw [initModels_returns_iff (by rw [hsize]; decide)]
  refine forall_congr' fun i => forall_congr' fun hi => ?_
  have hcount : (recordAt DataInCodeModel is64Bit d i).count = 8 :=
    (window_count _ (record_fits hi)).trans hsize
  generalize recordAt DataInCodeModel is64Bit d i = r at hcount
  change (∃ m, DataInCodeModel.init r = .ok m) ↔ _
  unfold DataInCodeModel.init
  simp (disch := decide) only [init_eq, shiftUInt32_bind, shiftUInt16_bind, unwrap_bind, Nat.reduceAdd,
    Nat.zero_add, le_absorb, pure_eq_ok, hcount, Option.isSome_iff_exists, exists_and_left]
  constructor
  · rintro ⟨-, m, kind, hkind, -⟩
    exact ⟨kind, hkind⟩
  · rintro ⟨kind, hkind⟩
    exact ⟨Nat.le_refl 8, _, kind, hkind, rfl⟩

/-! ## Symbols -/

/-- The entry is for the debugger: a bit of `N_STAB` is set. -/
def IsStab (entry : Data) : Prop := (entry.uint8At 4).value &&& 0xe0 ≠ 0

/-- `n_type & N_TYPE`. -/
def symbolTypeBits (entry : Data) : UInt8 := (entry.uint8At 4).value &&& 0x0e

/-- What the bytes of an entry need to be decoded: a type that exists and a name, unless the entry is for
the debugger. -/
structure SymbolReads (strings entry : Data) : Prop where
  type : ¬ IsStab entry → symbolTypeBits entry ∉ ([0x4, 0x6, 0x8] : List UInt8)
  name : ¬ IsStab entry → ∃ s, PieceReads strings (entry.uint32At 0).value.toNat s

/-- What they need to be shown: the section of an `N_SECT` symbol exists, and the offset in an `N_INDR`
symbol is an `Int`. -/
structure SymbolShows (is64Bit : Bool) (sections : Nat) (entry : Data) : Prop where
  section_ : ¬ IsStab entry → symbolTypeBits entry = 0xe →
    0 < (entry.uint8At 5).value.toNat ∧ (entry.uint8At 5).value.toNat ≤ sections
  indirect : ¬ IsStab entry → symbolTypeBits entry = 0xa →
    (addressAt is64Bit entry 8).value.toNat < 2 ^ 63

theorem forall_byte {p : UInt8 → Prop} (h : ∀ n : Fin 256, p (UInt8.ofFin n)) (b : UInt8) : p b := h b.toFin

theorem symbolType_isOk_iff : ∀ b : UInt8, (SymbolType.init b).toOption.isSome = true ↔
    (b &&& 0xe0 = 0 → b &&& 0x0e ∉ ([0x4, 0x6, 0x8] : List UInt8)) :=
  forall_byte (by decide +kernel)

theorem symbolType_section_iff : ∀ b : UInt8, SymbolType.init b = .ok .section_ ↔
    b &&& 0xe0 = 0 ∧ b &&& 0x0e = 0xe :=
  forall_byte (by decide +kernel)

theorem symbolType_indirect_iff : ∀ b : UInt8, SymbolType.init b = .ok .indirect ↔
    b &&& 0xe0 = 0 ∧ b &&& 0x0e = 0xa :=
  forall_byte (by decide +kernel)

theorem symbolType_stab_iff {b : UInt8} {type : SymbolType} (h : SymbolType.init b = .ok type) :
    (∃ stab, type = .stab stab) ↔ b &&& 0xe0 ≠ 0 := by
  unfold SymbolType.init at h
  by_cases hstab : b &&& 0xe0 = 0
  · have hnone : ∀ stab, type ≠ .stab stab := by
      rintro stab rfl
      simp only [hstab, bne_self_eq_false, Bool.false_eq_true, if_false] at h
      repeat' split at h
      all_goals cases h
    refine iff_of_false ?_ (not_not.mpr hstab)
    rintro ⟨stab, hs⟩
    exact hnone stab hs
  · rw [if_pos (bne_iff_ne.mpr hstab)] at h
    cases h
    exact iff_of_true ⟨_, rfl⟩ hstab

section Symbols

variable {strings : Data} {c : CStrings} {v : MachoView}

/-- A name is found, unless there is none and it is needed. -/
theorem entryName_returns_iff (hc : CStrings.runInitializing strings = .ok c)
    (hv : v.stringTable = some c) (type : SymbolType) (o : Nat) :
    (∃ name, SymbolTableEntry.name type v o = .ok name) ↔
      ((¬ ∃ stab, type = .stab stab) → ∃ s, PieceReads strings o s) := by
  obtain ⟨found, hfound, hsome, hnone⟩ := findString_found hc o
  have hread : found.isSome = true ↔ ∃ s, PieceReads strings o s := by
    cases found with
    | none =>
      refine iff_of_false Bool.false_ne_true ?_
      rintro ⟨s, hs⟩
      exact hnone rfl s hs
    | some s => exact iff_of_true rfl ⟨s, hsome s rfl⟩
  unfold SymbolTableEntry.name MachoView.findString
  rw [hv]
  simp only [hfound, ok_bind]
  cases type with
  | stab s => exact iff_of_true ⟨_, rfl⟩ fun hnot => absurd ⟨s, rfl⟩ hnot
  | _ =>
    rw [← hread]
    cases found with
    | none =>
      refine iff_of_false nofun fun hall => ?_
      exact absurd (hall (by rintro ⟨stab, hs⟩; cases hs)) Bool.false_ne_true
    | some s => exact iff_of_true ⟨s, rfl⟩ fun _ => rfl

/-- **An entry of the symbol table is decoded** iff its type exists and its name is in the string table. -/
theorem symbolTableEntry_returns_iff (hc : CStrings.runInitializing strings = .ok c)
    (hv : v.stringTable = some c) {is64Bit : Bool} {entry : Data}
    (hsize : entry.count = 8 + addressSize is64Bit) :
    (∃ e, SymbolTableEntry.init is64Bit v entry = .ok e) ↔ SymbolReads strings entry := by
  simp only [symbolTableEntry_init_eq_ok]
  constructor
  · rintro ⟨e, -, type, name, htype, hname, -⟩
    have hok : (SymbolType.init (entry.uint8At 4).value).toOption.isSome = true := by rw [htype]; rfl
    refine ⟨fun hstab => (symbolType_isOk_iff _).mp hok (not_not.mp hstab), fun hstab => ?_⟩
    refine (entryName_returns_iff hc hv type _).mp ⟨name, hname⟩ ?_
    rwa [symbolType_stab_iff htype]
  · intro h
    have hok := (symbolType_isOk_iff (entry.uint8At 4).value).mpr fun hstab =>
      h.type (not_not.mpr hstab)
    obtain ⟨type, htype⟩ := Option.isSome_iff_exists.mp hok
    rw [toOption_eq_some] at htype
    obtain ⟨name, hname⟩ := (entryName_returns_iff hc hv type (entry.uint32At 0).value.toNat).mpr
      fun hstab => h.name (by rwa [symbolType_stab_iff htype] at hstab)
    exact ⟨_, hsize.ge, type, name, htype, hname, rfl⟩

/-- Looking a string up always returns. -/
theorem findString_returns (hc : CStrings.runInitializing strings = .ok c) (hv : v.stringTable = some c)
    (o : Nat) : ∃ found, v.findString o = .ok found := by
  obtain ⟨found, hfound, -⟩ := findString_found hc o
  refine ⟨found, ?_⟩
  unfold MachoView.findString
  rw [hv]
  exact hfound

theorem typeExplanation_returns_iff (e : SymbolTableEntry) :
    (∃ text, e.typeExplanation v = .ok text) ↔ (e.symbolType.value = .section_ →
      0 < e.nSect.value.toNat ∧ e.nSect.value.toNat ≤ v.sectionHeaders.length) := by
  unfold SymbolTableEntry.typeExplanation
  cases htype : e.symbolType.value with
  | section_ =>
    simp only [forall_true_left]
    by_cases hzero : e.nSect.value = 0
    · rw [if_pos hzero, hzero]
      exact iff_of_false nofun fun h => absurd h.1 (Nat.lt_irrefl 0)
    · have hpos : 0 < e.nSect.value.toNat :=
        Nat.pos_of_ne_zero fun h => hzero (UInt8.toNat_inj.mp h)
      rw [if_neg hzero]
      by_cases hlt : e.nSect.value.toNat - 1 < v.sectionHeaders.length
      · rw [List.getElem?_eq_getElem hlt]
        exact iff_of_true ⟨_, rfl⟩ (by omega)
      · rw [List.getElem?_eq_none (Nat.le_of_not_lt hlt)]
        exact iff_of_false nofun (by omega)
  | _ => exact iff_of_true ⟨_, rfl⟩ (by simp)

theorem valueExplanation_returns_iff (hc : CStrings.runInitializing strings = .ok c)
    (hv : v.stringTable = some c) (e : SymbolTableEntry) :
    (∃ text, e.valueExplanation v = .ok text) ↔
      (e.symbolType.value = .indirect → e.nValue.value.toNat < 2 ^ 63) := by
  unfold SymbolTableEntry.valueExplanation
  cases htype : e.symbolType.value with
  | indirect =>
    simp only [forall_true_left, intOf]
    by_cases hlt : e.nValue.value.toNat < 2 ^ 63
    · obtain ⟨found, hfound⟩ := findString_returns hc hv e.nValue.value.toNat
      rw [if_pos hlt, ok_bind, hfound]
      exact iff_of_true ⟨_, rfl⟩ hlt
    · rw [if_neg hlt]
      exact iff_of_false nofun hlt
  | _ => exact iff_of_true ⟨_, rfl⟩ (by simp)

/-- **An entry of the symbol table is shown** iff its section exists and its offset is an `Int`. -/
theorem symbolTranslations_returns_iff (hc : CStrings.runInitializing strings = .ok c)
    (hv : v.stringTable = some c) {is64Bit : Bool} {w : MachoView} {entry : Data} {e : SymbolTableEntry}
    (he : SymbolTableEntry.init is64Bit w entry = .ok e) :
    (∃ ts, e.translations v = .ok ts) ↔ SymbolShows is64Bit v.sectionHeaders.length entry := by
  obtain ⟨-, type, name, htype, -, rfl⟩ := symbolTableEntry_init_eq_ok.mp he
  have hsection : type = .section_ ↔ ¬ IsStab entry ∧ symbolTypeBits entry = 0xe := by
    rw [IsStab, not_not, symbolTypeBits, ← symbolType_section_iff, htype, Except.ok.injEq]
  have hindirect : type = .indirect ↔ ¬ IsStab entry ∧ symbolTypeBits entry = 0xa := by
    rw [IsStab, not_not, symbolTypeBits, ← symbolType_indirect_iff, htype, Except.ok.injEq]
  have hboth : (∃ ts, (SymbolTableEntry.layout is64Bit entry type name).translations v = .ok ts) ↔
      (∃ text, (SymbolTableEntry.layout is64Bit entry type name).typeExplanation v = .ok text) ∧
      ∃ text, (SymbolTableEntry.layout is64Bit entry type name).valueExplanation v = .ok text := by
    unfold SymbolTableEntry.translations
    constructor
    · rintro ⟨ts, hts⟩
      rw [bind_eq_ok] at hts
      obtain ⟨text, htext, hts⟩ := hts
      rw [bind_eq_ok] at hts
      obtain ⟨value, hvalue, -⟩ := hts
      exact ⟨⟨text, htext⟩, value, hvalue⟩
    · rintro ⟨⟨text, htext⟩, value, hvalue⟩
      rw [htext, ok_bind, hvalue]
      exact ⟨_, rfl⟩
  rw [hboth, typeExplanation_returns_iff, valueExplanation_returns_iff hc hv]
  simp only [SymbolTableEntry.layout, Field.map, hsection, hindirect, and_imp]
  exact ⟨fun h => ⟨h.1, h.2⟩, fun h => ⟨h.1, h.2⟩⟩

end Symbols

/-! ## Function starts -/

/-- The names of a function can be looked up in a symbol table that is empty or made of its entries. -/
theorem functionName_returns {v : MachoView}
    (hv : ∀ t, v.symbolTable = some t → t = SymbolTable.empty ∨ ∃ models, t = SymbolTable.ofModels models)
    (a : UInt64) : ∃ name, v.functionName a = .ok name := by
  unfold MachoView.functionName
  cases ht : v.symbolTable with
  | none => exact ⟨_, rfl⟩
  | some t =>
    rcases hv t ht with rfl | ⟨models, rfl⟩
    · exact ⟨_, rfl⟩
    · simp only [SymbolTable.findSymbolBy_ofModels, ok_bind]
      exact ⟨_, rfl⟩

/-- A list of function starts is shown exactly if each of them is. -/
theorem translateFunctionStarts_exists {v : MachoView} {a : UInt64} {starts : List (Field FunctionStart)} :
    (∃ gs, translateFunctionStarts a v starts = .ok gs) ↔
      ∀ f ∈ starts, ∃ t, functionTranslation a v f = .ok t := by
  rw [← exists_mapM_eq_ok]
  unfold translateFunctionStarts
  constructor
  · rintro ⟨gs, hgs⟩
    rw [bind_eq_ok] at hgs
    obtain ⟨ts, hts, -⟩ := hgs
    exact ⟨ts, hts⟩
  · rintro ⟨ts, hts⟩
    rw [hts]
    exact ⟨_, rfl⟩

/-- A function that is shown has an address. -/
theorem functionTranslation_fits {v : MachoView} {a : UInt64} {f : Field FunctionStart}
    {t : GeneralTranslation} (h : functionTranslation a v f = .ok t) :
    f.value.address.toNat + a.toNat < 2 ^ 64 := by
  by_contra hge
  unfold functionTranslation plus at h
  rw [if_neg hge] at h
  cases h

/-- **Function starts are shown** iff every function has an address. -/
theorem translateFunctionStarts_returns_iff {v : MachoView}
    (hv : ∀ a, ∃ name, v.functionName a = .ok name) {a : UInt64} {starts : List (Field FunctionStart)} :
    (∃ gs, translateFunctionStarts a v starts = .ok gs) ↔
      ∀ f ∈ starts, f.value.address.toNat + a.toNat < 2 ^ 64 := by
  rw [translateFunctionStarts_exists]
  refine forall_congr' fun f => forall_congr' fun _ => ?_
  constructor
  · rintro ⟨t, ht⟩
    exact functionTranslation_fits ht
  · intro hlt
    obtain ⟨name, hname⟩ := hv (f.value.address + a)
    unfold functionTranslation plus
    rw [if_pos hlt, ok_bind, hname]
    exact ⟨_, rfl⟩

/-! ## Export tries -/

/-- Every node that a path of edges leads to can be read with the nodes right below it, and no path is as
long as the stack is deep. -/
def TrieLoads (stack : Nat) (d : Data) : Prop :=
  ∀ path o, (exportDescent d).Path 0 path o →
    path.length < stack ∧ ∃ links, (exportDescent d).children o = .ok links

theorem initExportInfo_returns_iff {stack : Nat} {d : Data} :
    (∃ nodes, initExportInfo stack d = .ok nodes) ↔ TrieLoads stack d := by
  rw [TrieLoads, ← Descent.exists_run_iff]
  constructor
  · rintro ⟨nodes, h⟩
    obtain ⟨ns, os, hrun, -⟩ := initExportInfo_eq_ok h
    exact ⟨os, hrun⟩
  · rintro ⟨os, hrun⟩
    cases hroot : readNode d 0 "" with
    | error e =>
      have hchildren : (exportDescent d).children 0 = .error e := by
        unfold exportDescent
        simp only
        rw [hroot]
        rfl
      cases stack with
      | zero => cases hrun
      | succ stack =>
        rw [Descent.run_error hchildren] at hrun
        cases hrun
    | ok root =>
      have hsame := allNodes_agrees ⟨"", hroot⟩ stack
      rw [hrun] at hsame
      rw [initExportInfo_eq, hroot, ok_bind, allNodes_eq]
      generalize (nodeDescent d).run stack root = x at hsame
      cases hsame with
      | ok hall => exact ⟨_, rfl⟩

/-! ## Opcodes -/

section Opcodes

variable {M : Type} [OperationCodeMetadata M] [OpcodeFormat M]

/-- The buffer is a stream of instructions, none with a number whose shift count overflows. -/
def OpcodesLoad (M : Type) [OpcodeFormat M] (d : Data) : Prop :=
  ∃ is, IsStream (OpcodeFormat.operands M) is d.bytes ∧
    ∀ i ∈ is, ∀ o ∈ i.operands, 7 * o.length < 2 ^ 32

omit [OpcodeFormat M] in
theorem ParsesFrom.operands_short {d : Data} {k : Nat} {is : List Instruction}
    {ops : List (OperationCode M)} (h : ParsesFrom d k is ops) :
    ∀ i ∈ is, ∀ o ∈ i.operands, 7 * o.length < 2 ^ 32 := by
  induction h with
  | nil => exact fun i hi => absurd hi List.not_mem_nil
  | cons hi _ _ ih =>
    intro j hj
    rcases List.mem_cons.mp hj with rfl | hj
    · exact fun o ho => (hi.operands o ho).2
    · exact ih j hj

/-- **Opcodes are read** iff the buffer is such a stream. -/
theorem operationCodes_returns_iff (hf : ∀ b, FollowsAt M b) {d : Data} :
    (∃ ops, operationCodes M d = .ok ops) ↔ OpcodesLoad M d := by
  constructor
  · rintro ⟨ops, hops⟩
    obtain ⟨is, hparse⟩ := operationCodes_eq_ok.mp hops
    exact ⟨is, (hparse.stream hf).1, hparse.operands_short⟩
  · rintro ⟨is, hstream, hshort⟩
    have haccepted : ∀ i ∈ is, ∃ m : M, i.Accepted m := by
      intro i hi
      have hvalid := hstream.valid i hi
      cases hinit : (OperationCodeMetadata.init (i.byte &&& 0xf0) (i.byte &&& 0x0f) : Run M) with
      | error e =>
        have hnone := hf i.byte
        unfold FollowsAt at hnone
        rw [hinit] at hnone
        exact absurd (hnone.symm.trans hvalid.shape) nofun
      | ok m =>
        obtain ⟨hshape, -, -⟩ := followsAt_ok (hf i.byte) hinit
        have hboth := hshape.symm.trans hvalid.shape
        simp only [Option.some.injEq, Prod.mk.injEq] at hboth
        exact ⟨m, hinit, hboth.1.symm, fun o ho => ⟨hvalid.operands o ho, hshort i hi o ho⟩,
          hboth.2.symm, hvalid.string⟩
    obtain ⟨ops, hops⟩ := parsesFrom_of_accepted haccepted (k := 0)
      (holds_of_eq hstream.bytes.symm) (by rw [hstream.bytes, Nat.zero_add]; rfl)
    exact ⟨ops, operationCodes_eq_ok.mpr ⟨is, hops⟩⟩

end Opcodes

end Mocha
