import Mocha.Macho.Slices

/-!
# The component of every section

`SectionComponent.createComponent` recognizes a section by its type, then by its attributes and last
by its names. Only the last of these cuts the section out of the file with `allowZeroLength`; the
others trap on a section without bytes.

**`createComponent_created_iff`**: for a section that lies in the file, the component is made and holds
the section's bytes iff the section has bytes or is recognized by its names. A zero-fill section has no
bytes in the file, but its size is still converted to `Int`.
-/

namespace Mocha

open Lib Data

/-- The types of a section of pointers. -/
def SectionType.isPointers (t : SectionType) : Bool :=
  t == .S_LITERAL_POINTERS || t.isSymbolPointers

/-- Neither the type nor the attributes of the section say what it holds. -/
def SectionHeader.isNamed (h : SectionHeader) : Bool :=
  !(h.sectionType.value == .S_CSTRING_LITERALS || h.sectionType.value.isPointers ||
    h.sectionAttributes.value.hasAttribute .S_ATTR_PURE_INSTRUCTIONS)

/-- The bytes of a section in the file. -/
def SectionHeader.sectionData (machoData : Data) (h : SectionHeader) : Data :=
  if h.sectionType.value.isZeroFill then ⟨0, []⟩
  else machoData.window h.offset.value.toNat h.size.value.toNat

/-- A section that lies in the file, or takes no place in it; pointers fill theirs. -/
structure SectionHeader.Fits (machoData : Data) (is64Bit : Bool) (h : SectionHeader) : Prop where
  inFile : h.sectionType.value.isZeroFill = true ∨
    h.offset.value.toNat + h.size.value.toNat ≤ machoData.count
  whole : h.sectionType.value.isPointers = true →
    h.size.value.toNat % DataShifter.addressSize is64Bit = 0

/-- `createComponent` returns, with the bytes of the section. -/
def SectionCreated (machoData : Data) (header : MachoHeader) (h : SectionHeader) : Prop :=
  ∃ c, createComponent machoData header h = .ok c ∧ c.data = h.sectionData machoData

section Sections

variable {machoData : Data} {header : MachoHeader} {h : SectionHeader}

theorem intOf_ok {n : UInt64} (hn : n.toNat < 2 ^ 63) : intOf n = .ok n.toNat := if_pos hn

theorem intOf_lt {n : UInt64} {k : Nat} (hk : intOf n = .ok k) : n.toNat < 2 ^ 63 := by
  unfold intOf at hk
  by_contra hn
  rw [if_neg hn] at hk
  cases hk

theorem pointerComponent_ok {d : Data} {is64Bit : Bool} {title : String} {kind : ComponentKind}
    (hwhole : d.count % DataShifter.addressSize is64Bit = 0) :
    pointerComponent d is64Bit title kind = .ok ⟨title, none, d, kind⟩ := by
  unfold pointerComponent pointerGuard
  rw [hwhole]
  rfl

theorem instructionComponent_ok {d : Data} {t : String} {cpuType : CPUType} {a : UInt64}
    (hcpu : cpuType ∈ [CPUType.x86, .x86_64, .arm, .arm64]) :
    ∃ arch, instructionComponent d t cpuType a = .ok ⟨t, none, d, .instruction arch a⟩ := by
  simp only [List.mem_cons, List.not_mem_nil, or_false] at hcpu
  rcases hcpu with rfl | rfl | rfl | rfl
  · exact ⟨.I386, rfl⟩
  · exact ⟨.X8664, rfl⟩
  · exact ⟨.ARM, rfl⟩
  · exact ⟨.ARM64, rfl⟩

/-- The size of a section has to be an `Int`. -/
theorem createComponent_size {c : MachoComponent} (hc : createComponent machoData header h = .ok c) :
    h.size.value.toNat < 2 ^ 63 := by
  unfold createComponent at hc
  rw [bind_eq_ok] at hc
  obtain ⟨size, hsize, -⟩ := hc
  exact intOf_lt hsize

/-- A section recognized by its type or its attributes has bytes. -/
theorem createComponent_pos {c : MachoComponent} (hc : createComponent machoData header h = .ok c)
    (hzero : h.sectionType.value.isZeroFill = false) (hnamed : h.isNamed = false) :
    0 < h.size.value.toNat := by
  unfold createComponent at hc
  rw [bind_eq_ok] at hc
  obtain ⟨size, hsize, hc⟩ := hc
  cases intOf_eq_ok hsize
  unfold SectionHeader.isNamed at hnamed
  cases htype : h.sectionType.value with
  | S_ZEROFILL | S_THREAD_LOCAL_ZEROFILL | S_GB_ZEROFILL =>
    rw [htype] at hzero
    cases hzero
  | S_CSTRING_LITERALS | S_LITERAL_POINTERS
  | S_LAZY_SYMBOL_POINTERS | S_NON_LAZY_SYMBOL_POINTERS | S_LAZY_DYLIB_SYMBOL_POINTERS =>
    rw [htype, bind_eq_ok] at hc
    obtain ⟨d, hd, -⟩ := hc
    exact (subSequence_eq_ok.mp hd).1
  | _ =>
    have hpure : h.sectionAttributes.value.hasAttribute .S_ATTR_PURE_INSTRUCTIONS = true := by
      simpa [htype, SectionType.isPointers, SectionType.isSymbolPointers] using hnamed
    rw [htype] at hc
    simp only [hpure, if_true] at hc
    rw [bind_eq_ok] at hc
    obtain ⟨d, hd, -⟩ := hc
    exact (subSequence_eq_ok.mp hd).1

/-- A zero-fill section has a component without bytes. -/
theorem createComponent_zeroFill (hzero : h.sectionType.value.isZeroFill = true)
    (hsize : h.size.value.toNat < 2 ^ 63) : SectionCreated machoData header h := by
  unfold SectionCreated createComponent SectionHeader.sectionData
  rw [intOf_ok hsize]
  cases htype : h.sectionType.value with
  | S_ZEROFILL | S_THREAD_LOCAL_ZEROFILL | S_GB_ZEROFILL => exact ⟨_, rfl, rfl⟩
  | _ =>
    rw [htype] at hzero
    cases hzero

/-- A section in the file has a component when it has bytes or is recognized by its names. -/
theorem createComponent_inFile (hcpu : header.cpuType.value ∈ [CPUType.x86, .x86_64, .arm, .arm64])
    (hfits : h.Fits machoData header.is64Bit) (hcount : machoData.count < 2 ^ 63)
    (hzero : h.sectionType.value.isZeroFill = false)
    (hsome : 0 < h.size.value.toNat ∨ h.isNamed = true) :
    ∃ c, createComponent machoData header h = .ok c := by
  have hfit := hfits.inFile.resolve_left (by rw [hzero]; exact Bool.false_ne_true)
  have hwhole := hfits.whole
  rw [← window_count machoData hfit] at hwhole
  unfold SectionHeader.isNamed at hsome
  unfold createComponent
  rw [intOf_ok (by omega)]
  cases htype : h.sectionType.value with
  | S_ZEROFILL | S_THREAD_LOCAL_ZEROFILL | S_GB_ZEROFILL =>
    rw [htype] at hzero
    cases hzero
  | S_CSTRING_LITERALS =>
    have hpos : 0 < h.size.value.toNat := by simpa [htype] using hsome
    simp only [ok_bind, subSequence_ok hpos hfit]
    exact ⟨_, rfl⟩
  | S_LITERAL_POINTERS
  | S_LAZY_SYMBOL_POINTERS | S_NON_LAZY_SYMBOL_POINTERS | S_LAZY_DYLIB_SYMBOL_POINTERS =>
    have hpos : 0 < h.size.value.toNat := by
      simpa [htype, SectionType.isPointers, SectionType.isSymbolPointers] using hsome
    rw [htype] at hwhole
    simp only [ok_bind, subSequence_ok hpos hfit, pointerComponent_ok (hwhole rfl)]
    exact ⟨_, rfl⟩
  | _ =>
    by_cases hpure : h.sectionAttributes.value.hasAttribute .S_ATTR_PURE_INSTRUCTIONS = true
    · have hpos : 0 < h.size.value.toNat := by simpa [hpure] using hsome
      obtain ⟨arch, harch⟩ := instructionComponent_ok (d := machoData.window h.offset.value.toNat
        h.size.value.toNat) (t := h.segment.value ++ "," ++ h.section_.value)
        (a := h.addr.value) hcpu
      simp only [ok_bind, hpure, if_true, subSequence_ok hpos hfit, harch]
      exact ⟨_, rfl⟩
    · simp only [ok_bind, hpure, subSequenceAllowing_eq_ok.mpr ⟨.inl rfl, hfit, rfl⟩]
      exact ⟨_, rfl⟩

/-- **Every section has its component** iff it has bytes or is recognized by its names; a zero-fill
section iff its size is an `Int`. -/
theorem createComponent_created_iff
    (hcpu : header.cpuType.value ∈ [CPUType.x86, .x86_64, .arm, .arm64])
    (hcount : machoData.count < 2 ^ 63) (hfits : h.Fits machoData header.is64Bit) :
    SectionCreated machoData header h ↔
      (h.sectionType.value.isZeroFill = true ∧ h.size.value.toNat < 2 ^ 63) ∨
      (h.sectionType.value.isZeroFill = false ∧ (0 < h.size.value.toNat ∨ h.isNamed = true)) := by
  by_cases hzero : h.sectionType.value.isZeroFill = true
  · simp only [hzero, true_and, Bool.true_eq_false, false_and, or_false]
    refine ⟨?_, createComponent_zeroFill hzero⟩
    rintro ⟨c, hc, -⟩
    exact createComponent_size hc
  · simp only [Bool.not_eq_true] at hzero
    simp only [hzero, Bool.false_eq_true, false_and, true_and, false_or]
    constructor
    · rintro ⟨c, hc, -⟩
      by_cases hnamed : h.isNamed = true
      · exact .inr hnamed
      · exact .inl (createComponent_pos hc hzero (by simpa using hnamed))
    · intro hsome
      obtain ⟨c, hc⟩ := createComponent_inFile hcpu hfits hcount hzero hsome
      refine ⟨c, hc, ?_⟩
      obtain ⟨⟨htrue, -⟩ | ⟨-, -, hdata⟩, -, -⟩ := createComponent_eq_ok hc
      · rw [hzero] at htrue
        cases htrue
      · unfold SectionHeader.sectionData
        rw [hdata, hzero]
        rfl

end Sections

/-- The header of a 64-bit file for ARM64. -/
def arm64Header : MachoHeader :=
  let word : Field UInt32 := ⟨0, ⟨0, 0⟩⟩
  ⟨⟨0, []⟩, true, ⟨0, []⟩, word.map fun _ => .arm64, word.map fun _ => .arm_all, word.map fun _ => .object,
    word, word, word, none⟩

/-- A section of the given type and size at 4, without attributes. -/
def sectionAt4 (type : SectionType) (size : UInt64) : SectionHeader :=
  let word : Field UInt32 := ⟨0, ⟨0, 0⟩⟩
  ⟨word.map fun _ => "__TEXT", word.map fun _ => "__cstring", word.map fun _ => 0,
    word.map fun _ => size, word.map fun _ => 4, word, word, word, word.map fun _ => type,
    word.map fun _ => ⟨0⟩, word, word, some word, true⟩

/-- A file of eight bytes. -/
def sectionFile : Data := ⟨0, [0xff, 0xff, 0xff, 0xff, 0x61, 0x00, 0x62, 0x00]⟩

theorem sectionAt4_fits {type : SectionType} (htype : type.isPointers = false) {size : UInt64}
    (hsize : size.toNat ≤ 4) : (sectionAt4 type size).Fits sectionFile arm64Header.is64Bit where
  inFile := .inr (Nat.add_le_add_left hsize 4)
  whole := by
    intro hp
    change type.isPointers = true at hp
    rw [htype] at hp
    cases hp

theorem createComponent_created_iff_strings :
    SectionCreated sectionFile arm64Header (sectionAt4 .S_CSTRING_LITERALS 4) ∧
      (sectionAt4 .S_CSTRING_LITERALS 4).sectionData sectionFile = ⟨4, [0x61, 0x00, 0x62, 0x00]⟩ :=
  ⟨(createComponent_created_iff (by decide) (by decide) (sectionAt4_fits rfl (by decide))).mpr
    (by decide), by decide⟩

/-- An empty section of C strings lies in the file, and traps. -/
theorem emptyStrings_trap :
    (sectionAt4 .S_CSTRING_LITERALS 0).Fits sectionFile arm64Header.is64Bit ∧
      createComponent sectionFile arm64Header (sectionAt4 .S_CSTRING_LITERALS 0) =
        .error .fatalError ∧
      ¬ SectionCreated sectionFile arm64Header (sectionAt4 .S_CSTRING_LITERALS 0) := by
  have htrap : createComponent sectionFile arm64Header (sectionAt4 .S_CSTRING_LITERALS 0) =
      .error .fatalError := by decide +kernel
  refine ⟨sectionAt4_fits rfl (by decide), htrap, ?_⟩
  rintro ⟨c, hc, -⟩
  rw [htrap] at hc
  cases hc

end Mocha
