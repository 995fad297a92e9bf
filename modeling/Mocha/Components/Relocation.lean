import Mocha.LoadCommand.Segment

/-!
# Relocation tables (`RelocationTable.swift`, `RelocationEntry.swift`, `LCSegment.relocationTable`)

A segment's relocation table starts at the first section that has relocation entries and must go on
without a gap through the other ones. `relocated` are these sections; `scanRelocations_eq_ok` says what
the loop over all sections collects from them.

`relocations_shown`: the entries of a table made by `relocationTable`, in order, are its data.
-/

namespace Mocha

open Lib Data DataShifter

/-- `RelocationEntry`. The last four fields are parts of one byte. -/
structure RelocationEntry where
  address : Field UInt32
  symbolNum : Field UInt32
  sectionName : String
  pcRelocated : Field Bool
  length : UInt8
  isExternal : Bool
  type : UInt8
  deriving DecidableEq

/-- `RelocationEntry.entrySize`. -/
def entrySize : Nat := 8

/-- `RelocationEntry(with:sectionName:)`. -/
def RelocationEntry.init (data : Data) (sectionName : String) : Run RelocationEntry := do
  let address ← (← data.subSequence 0 4).uint32
  let low ← data.subSequence 4 3
  let symbolNum ← (Data.mk low.startIndex (low.bytes ++ [0])).uint32
  let lastByte ← (← data.subSequence 7 1).uint8
  return {
    address := address
    symbolNum := ⟨symbolNum.value, low.span⟩
    sectionName := sectionName
    pcRelocated := lastByte.map fun b => b &&& 0b00000001 != 0
    length := (0b00000001 : UInt8) <<< ((lastByte.value &&& 0b00000110) >>> 1)
    isExternal := lastByte.value &&& 0b00001000 != 0
    type := (lastByte.value &&& 0b11110000) >>> 4 }

/-- `translations`. -/
def RelocationEntry.translations (e : RelocationEntry) : List GeneralTranslation :=
  [e.address.translation "Address" (hex e.address.value.toNat) 4 .uint32,
   e.symbolNum.translation "SymbolNum" (hex e.symbolNum.value.toNat) 3 .uint32,
   e.pcRelocated.translation "extra"
     ("pcRelocated: " ++ toString e.pcRelocated.value ++ ", length: " ++ decimal e.length.toNat ++
       ", isExternal: " ++ toString e.isExternal ++ ", type: " ++ decimal e.type.toNat) 1 .flags]

/-- `RelocationInfo`. -/
structure RelocationInfo where
  numberOfEntries : Nat
  sectionName : String
  deriving DecidableEq

/-- `for _ in 0..<info.numberOfEntries { … }`. -/
def readRelocations (sectionName : String) :
    Nat → DataShifter → Run (List RelocationEntry × DataShifter)
  | 0, s => .ok ([], s)
  | n + 1, s => do
    let (entryData, s) ← s.shift (.rawNumber entrySize)
    let entry ← RelocationEntry.init entryData sectionName
    let (entries, s) ← readRelocations sectionName n s
    return (entry :: entries, s)

/-- `self.relocationInfos.forEach { … }`. -/
def readRelocationInfos : List RelocationInfo → DataShifter → Run (List RelocationEntry)
  | [], _ => .ok []
  | info :: infos, s => do
    let (entries, s) ← readRelocations info.sectionName info.numberOfEntries s
    return entries ++ (← readRelocationInfos infos s)

/-- `RelocationTable.runInitializing()`. -/
def initRelocations (relocationInfos : List RelocationInfo) (d : Data) :
    Run (List RelocationEntry) :=
  readRelocationInfos relocationInfos (DataShifter.init d)

/-! ## The table of a segment -/

/-- The variables of `relocationTable(machoData:machoHeader:)`. -/
structure RelocationScan where
  startOffsetInMacho : Option Nat
  numberOfAllEntries : Nat
  relocationInfos : List RelocationInfo

/-- Whether a section has relocation entries. -/
def SectionHeader.hasRelocations (h : SectionHeader) : Bool :=
  h.fileOffsetOfRelocationEntries.value.toNat != 0 && h.numberOfRelocatioEntries.value.toNat != 0

/-- The information kept of a section with relocation entries. -/
def SectionHeader.relocationInfo (h : SectionHeader) : RelocationInfo :=
  ⟨h.numberOfRelocatioEntries.value.toNat, h.section_.value⟩

/-- One turn of `self.sectionHeaders.forEach { … }`. -/
def RelocationScan.step (s : RelocationScan) (h : SectionHeader) : Run RelocationScan := do
  let fileOffsetOfRelocationEntries := h.fileOffsetOfRelocationEntries.value.toNat
  if !h.hasRelocations then return s
  match s.startOffsetInMacho with
  | some start =>
    guardElse (start + s.numberOfAllEntries * entrySize == fileOffsetOfRelocationEntries)
  | none => pure ()
  return {
    startOffsetInMacho := some (s.startOffsetInMacho.getD fileOffsetOfRelocationEntries)
    numberOfAllEntries := s.numberOfAllEntries + h.relocationInfo.numberOfEntries
    relocationInfos := s.relocationInfos ++ [h.relocationInfo] }

/-- `relocationTable(machoData:machoHeader:)`: the data and the section list of the table. -/
def LCSegment.relocationTable (c : LCSegment) (machoData : Data) :
    Run (Option (Data × List RelocationInfo)) := do
  let scan ← c.sectionHeaders.foldlM RelocationScan.step ⟨none, 0, []⟩
  match scan.startOffsetInMacho with
  | none => return none
  | some start =>
    if scan.relocationInfos.isEmpty then return none
    let relocationData ← machoData.subSequence start (entrySize * scan.numberOfAllEntries)
    return some (relocationData, scan.relocationInfos)

/-- The sections of a segment with relocation entries. -/
def LCSegment.relocated (c : LCSegment) : List SectionHeader :=
  c.sectionHeaders.filter SectionHeader.hasRelocations

/-- How many entries a list of sections has. -/
def relocationCount (hs : List SectionHeader) : Nat :=
  (hs.map fun h => h.relocationInfo.numberOfEntries).sum

/-- The file offset of the first entries of a list of sections. -/
def relocationStart (hs : List SectionHeader) : Option Nat :=
  hs.head?.map fun h => h.fileOffsetOfRelocationEntries.value.toNat

theorem relocationScan_step_eq_ok {s t : RelocationScan} {h : SectionHeader}
    (hs : s.step h = .ok t) :
    (h.hasRelocations = false ∧ t = s) ∨ (h.hasRelocations = true ∧
      (∀ start ∈ s.startOffsetInMacho, start + s.numberOfAllEntries * entrySize =
        h.fileOffsetOfRelocationEntries.value.toNat) ∧
      t.startOffsetInMacho =
        some (s.startOffsetInMacho.getD h.fileOffsetOfRelocationEntries.value.toNat) ∧
      t.numberOfAllEntries = s.numberOfAllEntries + h.relocationInfo.numberOfEntries ∧
      t.relocationInfos = s.relocationInfos ++ [h.relocationInfo]) := by
  unfold RelocationScan.step at hs
  cases hr : h.hasRelocations with
  | false =>
    simp only [hr, Bool.not_false, if_true] at hs
    cases hs
    exact Or.inl ⟨rfl, rfl⟩
  | true =>
    simp only [hr, Bool.not_true, Bool.false_eq_true, if_false] at hs
    refine Or.inr ⟨rfl, ?_⟩
    split at hs
    · rename_i start hstart
      rw [guardElse_bind, beq_iff_eq] at hs
      obtain ⟨hnext, hs⟩ := hs
      cases hs
      refine ⟨fun start' hstart' => ?_, rfl, rfl, rfl⟩
      cases hstart.symm.trans hstart'
      exact hnext
    · rename_i hnone
      cases hs
      refine ⟨fun start' hstart' => ?_, rfl, rfl, rfl⟩
      cases hnone.symm.trans hstart'

/-- What the loop over the sections collects: only the sections with entries count. -/
theorem scanRelocations_eq_ok : ∀ {hs : List SectionHeader} {s t : RelocationScan},
    hs.foldlM RelocationScan.step s = .ok t →
      t.startOffsetInMacho =
        s.startOffsetInMacho.or (relocationStart (hs.filter SectionHeader.hasRelocations)) ∧
      t.numberOfAllEntries =
        s.numberOfAllEntries + relocationCount (hs.filter SectionHeader.hasRelocations) ∧
      t.relocationInfos = s.relocationInfos ++
        (hs.filter SectionHeader.hasRelocations).map SectionHeader.relocationInfo
  | [], s, t, h => by
    cases h
    simp [relocationStart, relocationCount]
  | header :: hs, s, t, h => by
    rw [List.foldlM_cons, bind_eq_ok] at h
    obtain ⟨u, hu, h⟩ := h
    obtain ⟨hstart, hcount, hinfos⟩ := scanRelocations_eq_ok h
    rcases relocationScan_step_eq_ok hu with ⟨hr, rfl⟩ | ⟨hr, -, hstart', hcount', hinfos'⟩
    · rw [List.filter_cons_of_neg (by rw [hr]; exact Bool.false_ne_true)]
      exact ⟨hstart, hcount, hinfos⟩
    · rw [List.filter_cons_of_pos hr, hstart, hcount, hinfos, hstart', hcount', hinfos']
      refine ⟨?_, ?_, ?_⟩
      · cases s.startOffsetInMacho <;> simp [relocationStart]
      · simp only [relocationCount, List.map_cons, List.sum_cons]
        omega
      · simp

/-- **`relocationTable`**: the entries of the sections that have some, from the first one on. -/
theorem relocationTable_eq_ok {c : LCSegment} {machoData : Data}
    {r : Option (Data × List RelocationInfo)} (h : c.relocationTable machoData = .ok r) :
    (r = none ∧ c.relocated = []) ∨ ∃ start, relocationStart c.relocated = some start ∧
      start + entrySize * relocationCount c.relocated ≤ machoData.count ∧
      r = some (machoData.window start (entrySize * relocationCount c.relocated),
        c.relocated.map SectionHeader.relocationInfo) := by
  unfold LCSegment.relocationTable at h
  rw [bind_eq_ok] at h
  obtain ⟨scan, hscan, h⟩ := h
  obtain ⟨hstart, hcount, hinfos⟩ := scanRelocations_eq_ok hscan
  change scan.startOffsetInMacho = relocationStart c.relocated at hstart
  rw [Nat.zero_add] at hcount
  rw [List.nil_append] at hinfos
  change scan.numberOfAllEntries = relocationCount c.relocated at hcount
  change scan.relocationInfos = c.relocated.map _ at hinfos
  rw [hstart, hcount, hinfos] at h
  cases hr : c.relocated with
  | nil =>
    rw [hr] at h
    cases h
    exact Or.inl ⟨rfl, rfl⟩
  | cons first rest =>
    rw [hr] at h
    simp only [relocationStart, List.head?_cons, Option.map_some, List.map_cons,
      List.isEmpty_cons, Bool.false_eq_true, if_false] at h
    rw [bind_eq_ok] at h
    obtain ⟨relocationData, hdata, h⟩ := h
    obtain ⟨_, hle, rfl⟩ := subSequence_eq_ok.mp hdata
    cases h
    exact Or.inr ⟨_, rfl, hle, rfl⟩

/-! ## Ranges -/

theorem relocationEntry_shown {d : Data} {name : String} {e : RelocationEntry} {k : Nat}
    (h : RelocationEntry.init (d.window k entrySize) name = .ok e) :
    Shown (d.startIndex + k) (d.startIndex + k + entrySize) e.translations := by
  unfold RelocationEntry.init at h
  rw [subSequence_uint32_bind, bind_eq_ok] at h
  obtain ⟨_, low, hlow, h⟩ := h
  obtain ⟨_, hle, rfl⟩ := subSequence_eq_ok.mp hlow
  simp only [bind_eq_ok] at h
  obtain ⟨symbolNum, _, byte, hbyte, lastByte, hlast, h⟩ := h
  obtain ⟨_, hle', rfl⟩ := subSequence_eq_ok.mp hbyte
  rw [uint8_window hle'] at hlast
  cases hlast
  cases h
  have hspan := window_span _ hle
  rw [window_startIndex] at hspan
  unfold entrySize at hspan ⊢
  simp [RelocationEntry.translations, Shown, hspan, Nat.add_assoc]

theorem readRelocations_shown {d : Data} {name : String} :
    ∀ {n k : Nat} {es : List RelocationEntry} {t : DataShifter},
      readRelocations name n (cursor d k) = .ok (es, t) →
        t = cursor d (k + n * entrySize) ∧
        Shown (d.startIndex + k) (d.startIndex + (k + n * entrySize))
          (es.flatMap RelocationEntry.translations)
  | 0, k, es, t, h => by
    cases h
    rw [Nat.zero_mul]
    exact ⟨rfl, rfl⟩
  | n + 1, k, es, t, h => by
    unfold readRelocations at h
    rw [shift_rawNumber_bind] at h
    obtain ⟨_, _, h⟩ := h
    rw [bind_eq_ok] at h
    obtain ⟨entry, hentry, h⟩ := h
    rw [bind_eq_ok] at h
    obtain ⟨⟨rest, u⟩, hrest, h⟩ := h
    cases h
    obtain ⟨rfl, hshown⟩ := readRelocations_shown hrest
    have hnext : k + entrySize + n * entrySize = k + (n + 1) * entrySize := by
      rw [Nat.succ_mul]
      omega
    rw [hnext] at hshown ⊢
    refine ⟨rfl, ?_⟩
    rw [List.flatMap_cons]
    exact (relocationEntry_shown hentry).append (by rwa [← Nat.add_assoc] at hshown)

theorem readRelocationInfos_shown {d : Data} :
    ∀ {infos : List RelocationInfo} {k : Nat} {es : List RelocationEntry},
      readRelocationInfos infos (cursor d k) = .ok es →
        Shown (d.startIndex + k)
          (d.startIndex + (k + (infos.map RelocationInfo.numberOfEntries).sum * entrySize))
          (es.flatMap RelocationEntry.translations)
  | [], k, es, h => by
    cases h
    simp [Shown]
  | info :: infos, k, es, h => by
    unfold readRelocationInfos at h
    rw [bind_eq_ok] at h
    obtain ⟨⟨first, u⟩, hfirst, h⟩ := h
    rw [bind_eq_ok] at h
    obtain ⟨rest, hrest, h⟩ := h
    cases h
    obtain ⟨rfl, hshown⟩ := readRelocations_shown hfirst
    rw [List.flatMap_append, List.map_cons, List.sum_cons, Nat.add_mul, ← Nat.add_assoc k]
    exact hshown.append (readRelocationInfos_shown hrest)

/-- **The entries of a segment's table are its data.** -/
theorem relocations_shown {c : LCSegment} {machoData d : Data} {infos : List RelocationInfo}
    {es : List RelocationEntry} (htable : c.relocationTable machoData = .ok (some (d, infos)))
    (h : initRelocations infos d = .ok es) :
    Shown d.startIndex d.endIndex (es.map RelocationEntry.translations).flatten := by
  rcases relocationTable_eq_ok htable with ⟨hnone, _⟩ | ⟨start, _, hfit, hsome⟩
  · cases hnone
  · cases hsome
    have hshown := readRelocationInfos_shown (k := 0) h
    rw [Nat.add_zero, Nat.zero_add, List.map_map] at hshown
    rw [Data.endIndex, window_count _ hfit, ← List.flatMap_def, Nat.mul_comm]
    exact hshown

end Mocha
