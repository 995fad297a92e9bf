import Mathlib.Data.List.ReduceOption
import Mocha.Macho.Macho

/-!
# Every component is the slice its header names

No component stores its file offset: `offsetInMacho` is the start index of a slice of a slice, cut by
a dozen constructors. `Macho.places` lists, in the order of `allComponents`, the offset and the size
that the header, command or section which located each component gives for it.

**`init_occupies`**: in a file whose data starts at `0`, every component is exactly the slice at its
place. A zero-fill section has no place.
-/

namespace Mocha

open Lib Data

/-- The component holds the given part of the file; without one it is a zero-fill section. -/
def MachoComponent.Occupies (machoData : Data) (c : MachoComponent) : Option (Nat × Nat) → Prop
  | none => ∃ runtimeSize, c.kind = .zeroFilled runtimeSize
  | some (offset, size) => c.offsetInMacho = offset ∧ c.dataSize = size ∧
      offset + size ≤ machoData.count ∧ machoData.slice offset (offset + size) = .ok c.data

/-! ## The places -/

/-- Load commands follow one another from `offset` on. -/
def commandPlaces : Nat → List LoadCommand → List (Nat × Nat)
  | _, [] => []
  | offset, c :: cs =>
    (offset, c.size.value.toNat) :: commandPlaces (offset + c.size.value.toNat) cs

/-- The place of a section. -/
def SectionHeader.place (h : SectionHeader) : Option (Nat × Nat) :=
  if h.sectionType.value.isZeroFill then none else some (h.offset.value.toNat, h.size.value.toNat)

/-- The place of a segment's relocation table: all entries from the first ones on. -/
def LCSegment.relocationPlace (c : LCSegment) : Option (Nat × Nat) :=
  (relocationStart c.relocated).map fun start => (start, 8 * relocationCount c.relocated)

/-- The place of the data of a `LCLinkedITData`. -/
def LCLinkedITData.place (c : LCLinkedITData) : Nat × Nat :=
  (c.containedDataFileOffset.value.toNat, c.containedDataSize.value.toNat)

/-- Whether an offset and a size are both given. -/
def present (p : Nat × Nat) : Bool := p.1 != 0 && p.2 != 0

/-- The five pairs of a `LCDyldInfo`, of which the ones with a zero are absent. -/
def LCDyldInfo.places (c : LCDyldInfo) : List (Nat × Nat) :=
  [(c.rebaseOffset.value.toNat, c.rebaseSize.value.toNat),
   (c.bindOffset.value.toNat, c.bindSize.value.toNat),
   (c.weakBindOffset.value.toNat, c.weakBindSize.value.toNat),
   (c.lazyBindOffset.value.toNat, c.lazyBindSize.value.toNat),
   (c.exportOffset.value.toNat, c.exportSize.value.toNat)].filter present

/-- The place of the symbol table. -/
def LCSymbolTable.symbolPlace (c : LCSymbolTable) (is64Bit : Bool) : Nat × Nat :=
  (c.symbolTableOffset.value.toNat,
    c.numberOfSymbolTableEntries.value.toNat * if is64Bit then 16 else 12)

/-- The place of the string table. -/
def LCSymbolTable.stringPlace (c : LCSymbolTable) : Nat × Nat :=
  (c.stringTableOffset.value.toNat, c.sizeOfStringTable.value.toNat)

/-- The place of the indirect symbol table, which is absent when it is empty. -/
def LCDynamicSymbolTable.indirectPlace (c : LCDynamicSymbolTable) : Option (Nat × Nat) :=
  if c.nindirectsyms.value.toNat = 0 then none
  else some (c.indirectsymoff.value.toNat, 4 * c.nindirectsyms.value.toNat)

/-- The places of `allComponents`, in order. -/
def Macho.places (m : Macho) : List (Option (Nat × Nat)) :=
  let is64Bit := m.machoHeader.is64Bit
  let headerSize := machoHeaderSize is64Bit
  [some (0, headerSize)] ++ (commandPlaces headerSize m.loadCommands).map some ++
    m.sectionHeaders.map SectionHeader.place ++
    ((segmentCommands m.loadCommands).filterMap LCSegment.relocationPlace).map some ++
    (linkedITDataLoadCommands m.loadCommands).map (fun c => some c.2.2.place) ++
    ((dyldInfoLoadCommands m.loadCommands).flatMap LCDyldInfo.places).map some ++
    ((symbolTableLoadCommand m.loadCommands).toList.map fun c => some (c.symbolPlace is64Bit)) ++
    ((indirectSymbolTableLoadCommand m.loadCommands).toList.flatMap
      fun c => c.indirectPlace.toList.map some) ++
    ((symbolTableLoadCommand m.loadCommands).toList.map fun c => some c.stringPlace)

/-! ## One component -/

section Slices

variable {machoData : Data}

/-- A window of data that starts at `0` occupies its place. -/
theorem occupies_window (h0 : machoData.startIndex = 0) {offset size : Nat}
    (hfit : offset + size ≤ machoData.count) {c : MachoComponent}
    (hdata : c.data = machoData.window offset size) :
    c.Occupies machoData (some (offset, size)) := by
  have hslice := slice_ok machoData hfit
  rw [h0, Nat.zero_add] at hslice
  refine ⟨?_, ?_, hfit, by rw [hdata, hslice]⟩
  · rw [MachoComponent.offsetInMacho, hdata, window_startIndex, h0, Nat.zero_add]
  · rw [MachoComponent.dataSize, hdata, window_count machoData hfit]

theorem intOf_eq_ok {n : UInt64} {k : Nat} (h : intOf n = .ok k) : k = n.toNat := by
  unfold intOf at h
  split at h
  · cases h
    rfl
  · cases h

theorem pointerComponent_eq_ok {d : Data} {is64Bit : Bool} {title : String} {kind : ComponentKind}
    {c : MachoComponent} (h : pointerComponent d is64Bit title kind = .ok c) :
    d.count % DataShifter.addressSize is64Bit = 0 ∧ c = ⟨title, none, d, kind⟩ := by
  unfold pointerComponent pointerGuard at h
  rw [guardElse_bind, beq_iff_eq] at h
  obtain ⟨hwhole, h⟩ := h
  cases h
  exact ⟨hwhole, rfl⟩

theorem instructionComponent_data {d : Data} {title : String} {cpu : CPUType} {a : UInt64}
    {c : MachoComponent} (h : instructionComponent d title cpu a = .ok c) :
    ∃ arch, c = ⟨title, none, d, .instruction arch a⟩ := by
  unfold instructionComponent at h
  rw [bind_eq_ok] at h
  obtain ⟨arch, _, h⟩ := h
  cases h
  exact ⟨arch, rfl⟩

theorem namedSectionKind_isTable (s : SectionHeader) : (namedSectionKind s).isTable = false := by
  unfold namedSectionKind
  split_ifs <;> rfl

/-- **A section's component**: its bytes are the section's, its kind is no table, and for a type of
symbol pointers it is that subclass. -/
theorem createComponent_eq_ok {header : MachoHeader} {s : SectionHeader} {c : MachoComponent}
    (h : createComponent machoData header s = .ok c) :
    ((s.sectionType.value.isZeroFill = true ∧ ∃ runtimeSize, c.kind = .zeroFilled runtimeSize) ∨
      (s.sectionType.value.isZeroFill = false ∧
        s.offset.value.toNat + s.size.value.toNat ≤ machoData.count ∧
        c.data = machoData.window s.offset.value.toNat s.size.value.toNat)) ∧
    c.kind.isTable = false ∧
    (s.sectionType.value.isSymbolPointers = true →
      c.kind = .symbolPointer header.is64Bit s.sectionType.value s.reserved1.value.toNat) := by
  unfold createComponent at h
  rw [bind_eq_ok] at h
  obtain ⟨size, hsize, h⟩ := h
  cases intOf_eq_ok hsize
  cases htype : s.sectionType.value with
  | S_ZEROFILL | S_THREAD_LOCAL_ZEROFILL | S_GB_ZEROFILL =>
    rw [htype] at h
    cases h
    exact ⟨.inl ⟨rfl, _, rfl⟩, rfl, nofun⟩
  | S_CSTRING_LITERALS =>
    rw [htype, bind_eq_ok] at h
    obtain ⟨d, hd, h⟩ := h
    obtain ⟨_, hfit, rfl⟩ := subSequence_eq_ok.mp hd
    cases h
    exact ⟨.inr ⟨rfl, hfit, rfl⟩, rfl, nofun⟩
  | S_LITERAL_POINTERS =>
    rw [htype, bind_eq_ok] at h
    obtain ⟨d, hd, h⟩ := h
    obtain ⟨_, hfit, rfl⟩ := subSequence_eq_ok.mp hd
    obtain ⟨_, rfl⟩ := pointerComponent_eq_ok h
    exact ⟨.inr ⟨rfl, hfit, rfl⟩, rfl, nofun⟩
  | S_LAZY_SYMBOL_POINTERS | S_NON_LAZY_SYMBOL_POINTERS | S_LAZY_DYLIB_SYMBOL_POINTERS =>
    rw [htype, bind_eq_ok] at h
    obtain ⟨d, hd, h⟩ := h
    obtain ⟨_, hfit, rfl⟩ := subSequence_eq_ok.mp hd
    obtain ⟨_, rfl⟩ := pointerComponent_eq_ok h
    exact ⟨.inr ⟨rfl, hfit, rfl⟩, rfl, fun _ => rfl⟩
  | _ =>
    rw [htype] at h
    simp only at h
    split at h
    · rw [bind_eq_ok] at h
      obtain ⟨d, hd, h⟩ := h
      obtain ⟨_, hfit, rfl⟩ := subSequence_eq_ok.mp hd
      obtain ⟨arch, rfl⟩ := instructionComponent_data h
      exact ⟨.inr ⟨rfl, hfit, rfl⟩, rfl, nofun⟩
    · rw [bind_eq_ok] at h
      obtain ⟨d, hd, h⟩ := h
      obtain ⟨_, hfit, rfl⟩ := subSequenceAllowing_eq_ok.mp hd
      cases h
      exact ⟨.inr ⟨rfl, hfit, rfl⟩, namedSectionKind_isTable s, nofun⟩

/-- A section's component is the section. -/
theorem createComponent_occupies (h0 : machoData.startIndex = 0) {header : MachoHeader}
    {s : SectionHeader} {c : MachoComponent}
    (h : createComponent machoData header s = .ok c) : c.Occupies machoData s.place := by
  unfold SectionHeader.place
  obtain ⟨⟨hzero, hkind⟩ | ⟨hzero, hfit, hdata⟩, -, -⟩ := createComponent_eq_ok h
  · rw [if_pos hzero]
    exact hkind
  · rw [hzero, if_neg Bool.false_ne_true]
    exact occupies_window h0 hfit hdata

/-- The components of a list of load commands from `offset` on. -/
theorem commands_occupy (h0 : machoData.startIndex = 0) {offset total : Nat}
    (hfit : offset + total ≤ machoData.count) :
    ∀ {k : Nat} {cs : List LoadCommand}, CommandsFrom (machoData.window offset total) k cs →
      List.Forall₂ (MachoComponent.Occupies machoData) (cs.map LoadCommand.component)
        ((commandPlaces (offset + k) cs).map some) := by
  intro k cs h
  induction h with
  | nil => exact .nil
  | @cons k c cs hc _ ih =>
    have hinside : k + c.size.value.toNat ≤ total := by
      have hle := hc.fits
      rwa [window_count machoData hfit] at hle
    rw [← Nat.add_assoc] at ih
    refine .cons (occupies_window h0 (by omega) ?_) ih
    rw [LoadCommand.component, hc.data, window_window machoData hinside]

theorem relocationComponent_occupies (h0 : machoData.startIndex = 0) {s : LCSegment}
    {c : Option MachoComponent} (h : s.relocationComponent machoData = .ok c) :
    List.Forall₂ (MachoComponent.Occupies machoData) c.toList (s.relocationPlace.toList.map some) := by
  unfold LCSegment.relocationComponent at h
  rw [bind_eq_ok] at h
  obtain ⟨table, htable, h⟩ := h
  cases h
  unfold LCSegment.relocationPlace
  rcases relocationTable_eq_ok htable with ⟨rfl, hnone⟩ | ⟨start, hstart, hfit, rfl⟩
  · rw [hnone]
    exact .nil
  · rw [hstart]
    exact .cons (occupies_window h0 hfit rfl) .nil

theorem symbolTable_eq_ok {t : LCSymbolTable} {is64Bit : Bool} {c : MachoComponent}
    (h : t.symbolTable machoData is64Bit = .ok c) :
    (t.symbolPlace is64Bit).1 + (t.symbolPlace is64Bit).2 ≤ machoData.count ∧
      c = ⟨"Symbol Table", none, machoData.window (t.symbolPlace is64Bit).1 (t.symbolPlace is64Bit).2,
        .symbolTable is64Bit⟩ := by
  unfold LCSymbolTable.symbolTable at h
  rw [bind_eq_ok] at h
  obtain ⟨d, hd, h⟩ := h
  obtain ⟨_, hfit, rfl⟩ := subSequence_eq_ok.mp hd
  cases h
  exact ⟨hfit, rfl⟩

theorem stringTable_eq_ok {t : LCSymbolTable} {c : MachoComponent}
    (h : t.stringTable machoData = .ok c) :
    t.stringPlace.1 + t.stringPlace.2 ≤ machoData.count ∧
      c = ⟨"String Table", none, machoData.window t.stringPlace.1 t.stringPlace.2, .stringTable⟩ := by
  unfold LCSymbolTable.stringTable at h
  rw [bind_eq_ok] at h
  obtain ⟨d, hd, h⟩ := h
  obtain ⟨_, hfit, rfl⟩ := subSequence_eq_ok.mp hd
  cases h
  exact ⟨hfit, rfl⟩

theorem indirectSymbolTable_eq_ok {t : LCDynamicSymbolTable} {is64Bit : Bool}
    {c : Option MachoComponent} (h : t.indirectSymbolTable machoData is64Bit = .ok c) :
    (t.indirectPlace = none ∧ c = none) ∨ ∃ offset size, t.indirectPlace = some (offset, size) ∧
      offset + size ≤ machoData.count ∧ c = some ⟨"Indirect Symbol Table", none,
        machoData.window offset size, .indirectSymbolTable is64Bit⟩ := by
  unfold LCDynamicSymbolTable.indirectSymbolTable at h
  unfold LCDynamicSymbolTable.indirectPlace
  by_cases hover : 2 ^ 32 ≤ t.nindirectsyms.value.toNat * 4
  · simp only [hover, if_true] at h
    cases h
  · simp only [hover, if_false, pure_eq_ok] at h
    by_cases hzero : t.nindirectsyms.value.toNat = 0
    · simp only [hzero, Nat.zero_mul, if_true] at h
      cases h
      exact .inl ⟨if_pos hzero, rfl⟩
    · have hsize : ¬ t.nindirectsyms.value.toNat * 4 = 0 := by omega
      simp only [hsize, if_false, bind_eq_ok] at h
      obtain ⟨d, hd, h⟩ := h
      obtain ⟨_, hfit, rfl⟩ := subSequence_eq_ok.mp hd
      cases h
      rw [if_neg hzero, Nat.mul_comm 4]
      exact .inr ⟨_, _, rfl, hfit, rfl⟩

theorem indirectSymbolTable_occupies (h0 : machoData.startIndex = 0) {t : LCDynamicSymbolTable}
    {is64Bit : Bool} {c : Option MachoComponent}
    (h : t.indirectSymbolTable machoData is64Bit = .ok c) :
    List.Forall₂ (MachoComponent.Occupies machoData) c.toList (t.indirectPlace.toList.map some) := by
  rcases indirectSymbolTable_eq_ok h with ⟨hplace, rfl⟩ | ⟨offset, size, hplace, hfit, rfl⟩
  · rw [hplace]
    exact .nil
  · rw [hplace]
    exact .cons (occupies_window h0 hfit rfl) .nil

theorem functionStartsComponent_eq_ok {d : Data} {title : String} {a : UInt64} {c : MachoComponent}
    (h : functionStartsComponent d title a = .ok c) :
    ∃ starts, functionStarts d = .ok starts ∧ c = ⟨title, none, d, .functionStarts a starts⟩ := by
  unfold functionStartsComponent at h
  rw [bind_eq_ok] at h
  obtain ⟨starts, hstarts, h⟩ := h
  cases h
  exact ⟨starts, hstarts, rfl⟩

theorem linkedITComponent_eq_ok {t : LCLinkedITData} {type : LoadCommandType} {title : String}
    {is64Bit : Bool} {text : Option LCSegment} {c : MachoComponent}
    (h : t.linkedITComponent type title machoData is64Bit text = .ok c) :
    t.place.1 + t.place.2 ≤ machoData.count ∧ c.data = machoData.window t.place.1 t.place.2 ∧
      c.kind.isTable = false := by
  unfold LCLinkedITData.linkedITComponent at h
  rw [bind_eq_ok] at h
  obtain ⟨d, hd, h⟩ := h
  obtain ⟨_, hfit, rfl⟩ := subSequenceAllowing_eq_ok.mp hd
  split at h
  · cases h
    exact ⟨hfit, rfl, rfl⟩
  · cases h
    exact ⟨hfit, rfl, rfl⟩
  · rw [guardLet_bind] at h
    obtain ⟨segment, _, h⟩ := h
    obtain ⟨starts, _, rfl⟩ := functionStartsComponent_eq_ok h
    exact ⟨hfit, rfl, rfl⟩
  · cases h
    exact ⟨hfit, rfl, rfl⟩
  · cases h
    exact ⟨hfit, rfl, rfl⟩

theorem dyldInfoComponent_kind {start size : Nat} {title : String} {kind : ComponentKind}
    {c : MachoComponent} (h : dyldInfoComponent machoData start size title kind = .ok (some c)) :
    c.kind = kind := by
  unfold dyldInfoComponent at h
  split at h
  · rw [bind_eq_ok] at h
    obtain ⟨d, hd, h⟩ := h
    cases h
    rfl
  · cases h

theorem dyldInfoComponent_occupies (h0 : machoData.startIndex = 0) {start size : Nat}
    {title : String} {kind : ComponentKind} {c : Option MachoComponent}
    (h : dyldInfoComponent machoData start size title kind = .ok c) :
    List.Forall₂ (MachoComponent.Occupies machoData) c.toList
      (([(start, size)].filter present).map some) := by
  have hiff : present (start, size) = true ↔ start ≠ 0 ∧ size ≠ 0 := by simp [present]
  unfold dyldInfoComponent at h
  by_cases hp : start ≠ 0 ∧ size ≠ 0
  · rw [if_pos hp, bind_eq_ok] at h
    obtain ⟨d, hd, h⟩ := h
    cases h
    rw [List.filter_cons_of_pos (hiff.mpr hp)]
    obtain ⟨_, hfit, rfl⟩ := subSequence_eq_ok.mp hd
    exact .cons (occupies_window h0 hfit rfl) .nil
  · rw [if_neg hp] at h
    cases h
    rw [List.filter_cons_of_neg fun hpos => hp (hiff.mp hpos)]
    exact .nil

theorem filter_eq_flatMap {α : Type} (p : α → Bool) :
    ∀ l : List α, l.filter p = l.flatMap fun a => [a].filter p
  | [] => rfl
  | a :: l => by
    rw [List.flatMap_cons, ← filter_eq_flatMap p l, ← List.filter_append]
    rfl

theorem places_eq_flatMap (c : LCDyldInfo) (is64Bit : Bool) :
    c.places = (c.blocks is64Bit).flatMap fun b => [(b.1, b.2.1)].filter present := by
  have hpairs : c.places = ((c.blocks is64Bit).map fun b => (b.1, b.2.1)).filter present := rfl
  rw [hpairs, filter_eq_flatMap, List.flatMap_map]

theorem dyldInfoComponents_isTable {t : LCDyldInfo} {is64Bit : Bool} {cs : List MachoComponent}
    (h : t.dyldInfoComponents machoData is64Bit = .ok cs) : ∀ c ∈ cs, c.kind.isTable = false := by
  unfold LCDyldInfo.dyldInfoComponents at h
  rw [bind_eq_ok] at h
  obtain ⟨opts, hopts, h⟩ := h
  cases h
  have hblocks : ∀ b ∈ t.blocks is64Bit, b.2.2.2.isTable = false := by
    simp [LCDyldInfo.blocks, ComponentKind.isTable]
  intro c hc
  rw [List.reduceOption_mem_iff] at hc
  obtain ⟨b, hb, hcut⟩ := forall₂_exists_left (mapM_eq_ok.mp hopts) hc
  rw [dyldInfoComponent_kind hcut]
  exact hblocks b hb

theorem dyldInfoComponents_occupy (h0 : machoData.startIndex = 0) {t : LCDyldInfo}
    {is64Bit : Bool} {cs : List MachoComponent}
    (h : t.dyldInfoComponents machoData is64Bit = .ok cs) :
    List.Forall₂ (MachoComponent.Occupies machoData) cs (t.places.map some) := by
  unfold LCDyldInfo.dyldInfoComponents at h
  rw [bind_eq_ok] at h
  obtain ⟨opts, hopts, h⟩ := h
  cases h
  rw [places_eq_flatMap t is64Bit, List.map_flatMap, List.reduceOption,
    List.filterMap_eq_flatMap_toList]
  refine List.rel_flatMap (mapM_eq_ok.mp hopts).flip ?_
  intro opt b hb
  exact dyldInfoComponent_occupies h0 hb

end Slices

/-! ## All components -/

/-- A fallible map over an optional value, as one over a list. -/
theorem option_mapM_eq_ok {α β : Type} {f : α → Run β} {o : Option α} {r : Option β}
    (h : o.mapM f = .ok r) : List.Forall₂ (fun a b => f a = .ok b) o.toList r.toList := by
  cases o with
  | none =>
    cases h
    exact .nil
  | some a =>
    cases hb : f a with
    | error e =>
      rw [Option.mapM_some, hb] at h
      cases h
    | ok b =>
      rw [Option.mapM_some, hb] at h
      cases h
      exact .cons hb .nil

theorem join_toList {α : Type} (o : Option (Option α)) :
    o.join.toList = o.toList.flatMap Option.toList := by
  cases o with
  | none => rfl
  | some p => cases p <;> rfl

/-- Where `Macho.init` gets the parts of a file from. -/
structure Macho.Built (machoData : Data) (header : MachoHeader) (m : Macho) : Prop where
  machoHeader : m.machoHeader = header
  commands : ∃ commandData, machoData.subSequence header.data.count
      header.sizeOfAllLoadCommand.value.toNat = .ok commandData ∧
    Mocha.loadCommands commandData = .ok m.loadCommands
  sections : List.Forall₂ (fun s c => createComponent machoData header s = .ok c)
    m.sectionHeaders m.sectionComponents
  relocations : ∃ tables, List.Forall₂
      (fun (s : LCSegment) c => s.relocationComponent machoData = .ok c)
      (segmentCommands m.loadCommands) tables ∧ m.relocationTables = tables.reduceOption
  linkedITs : List.Forall₂ (fun c x => c.2.2.linkedITComponent c.1 c.2.1 machoData header.is64Bit
      (textSegmentLoadCommand m.loadCommands) = .ok x)
    (linkedITDataLoadCommands m.loadCommands) m.linkedITComponents
  dyldInfos : ∃ blocks, List.Forall₂ (fun (c : LCDyldInfo) cs =>
      c.dyldInfoComponents machoData header.is64Bit = .ok cs)
      (dyldInfoLoadCommands m.loadCommands) blocks ∧ m.dyldInfoComponents = blocks.flatten
  symbols : List.Forall₂ (fun (c : LCSymbolTable) x => c.symbolTable machoData header.is64Bit = .ok x)
    (symbolTableLoadCommand m.loadCommands).toList m.symbolTable.toList
  strings : List.Forall₂ (fun (c : LCSymbolTable) x => c.stringTable machoData = .ok x)
    (symbolTableLoadCommand m.loadCommands).toList m.stringTable.toList
  indirects : ∃ table : Option (Option MachoComponent), List.Forall₂
      (fun (c : LCDynamicSymbolTable) x =>
        c.indirectSymbolTable machoData header.is64Bit = .ok x)
      (indirectSymbolTableLoadCommand m.loadCommands).toList table.toList ∧
    m.indirectSymbolTable = table.join

theorem init_built {machoData : Data} {name : String} {header : MachoHeader} {m : Macho}
    (h : Macho.init machoData name header = .ok m) : m.Built machoData header := by
  unfold Macho.init Macho.build at h
  simp only [bind_eq_ok, guardElse_eq_ok] at h
  obtain ⟨built, ⟨commandData, hdata, commands, hcommands, _, _, relocations, hrelocations, symbols,
    hsymbols, strings, hstrings, indirects, hindirects, sections, hsections, linked, hlinked, dyld,
    hdyld, hbuilt⟩, edges, _, h⟩ := h
  cases hbuilt
  cases h
  exact {
    machoHeader := rfl
    commands := ⟨commandData, hdata, hcommands⟩
    sections := mapM_eq_ok.mp hsections
    relocations := ⟨relocations, mapM_eq_ok.mp hrelocations, rfl⟩
    linkedITs := mapM_eq_ok.mp hlinked
    dyldInfos := ⟨dyld, mapM_eq_ok.mp hdyld, rfl⟩
    symbols := option_mapM_eq_ok hsymbols
    strings := option_mapM_eq_ok hstrings
    indirects := ⟨indirects, option_mapM_eq_ok hindirects, rfl⟩ }

/-- **Every component is the slice its header names.** -/
theorem init_occupies {machoData : Data} {name : String} {header : MachoHeader} {m : Macho}
    {is64Bit : Bool} (h0 : machoData.startIndex = 0)
    (hheader : MachoHeader.init machoData is64Bit = .ok header)
    (h : Macho.init machoData name header = .ok m) :
    List.Forall₂ (MachoComponent.Occupies machoData) m.allComponents m.places := by
  obtain ⟨hhead, rfl⟩ := machoHeader_init_eq_ok.mp hheader
  have hbuilt := init_built h
  have hcount : (machoData.window 0 (machoHeaderSize is64Bit)).count = machoHeaderSize is64Bit :=
    window_count _ (by rwa [Nat.zero_add])
  have hheaderPart : (MachoHeader.layout is64Bit
      (machoData.window 0 (machoHeaderSize is64Bit))).component.Occupies machoData
        (some (0, machoHeaderSize is64Bit)) :=
    occupies_window h0 (by rwa [Nat.zero_add]) rfl
  have hcommandPart : List.Forall₂ (MachoComponent.Occupies machoData)
      (m.loadCommands.map LoadCommand.component)
      ((commandPlaces (machoHeaderSize is64Bit) m.loadCommands).map some) := by
    obtain ⟨commandData, hdata, hcommands⟩ := hbuilt.commands
    obtain ⟨_, hfit, rfl⟩ := subSequence_eq_ok.mp hdata
    have hpart := commands_occupy h0 hfit (loadCommands_eq_ok.mp hcommands)
    rwa [Nat.add_zero, show (MachoHeader.layout is64Bit (machoData.window 0
      (machoHeaderSize is64Bit))).data.count = machoHeaderSize is64Bit from hcount] at hpart
  have hsectionPart : List.Forall₂ (MachoComponent.Occupies machoData) m.sectionComponents
      (m.sectionHeaders.map SectionHeader.place) := by
    rw [List.forall₂_map_right_iff]
    exact (hbuilt.sections.imp fun s c hc => createComponent_occupies h0 hc).flip
  have hrelocationPart : List.Forall₂ (MachoComponent.Occupies machoData) m.relocationTables
      (((segmentCommands m.loadCommands).filterMap LCSegment.relocationPlace).map some) := by
    obtain ⟨tables, htables, hflat⟩ := hbuilt.relocations
    rw [hflat, List.reduceOption, List.filterMap_eq_flatMap_toList, List.filterMap_eq_flatMap_toList,
      List.map_flatMap]
    exact List.rel_flatMap htables.flip fun c s hc => relocationComponent_occupies h0 hc
  have hlinkedPart : List.Forall₂ (MachoComponent.Occupies machoData) m.linkedITComponents
      ((linkedITDataLoadCommands m.loadCommands).map fun c => some c.2.2.place) := by
    rw [List.forall₂_map_right_iff]
    exact (hbuilt.linkedITs.imp fun t c hc =>
      occupies_window h0 (linkedITComponent_eq_ok hc).1 (linkedITComponent_eq_ok hc).2.1).flip
  have hdyldPart : List.Forall₂ (MachoComponent.Occupies machoData) m.dyldInfoComponents
      (((dyldInfoLoadCommands m.loadCommands).flatMap LCDyldInfo.places).map some) := by
    obtain ⟨blocks, hblocks, hflat⟩ := hbuilt.dyldInfos
    rw [hflat, List.map_flatMap, ← List.flatMap_id]
    exact List.rel_flatMap hblocks.flip fun c t hc => dyldInfoComponents_occupy h0 hc
  have hsymbolPart : List.Forall₂ (MachoComponent.Occupies machoData) m.symbolTable.toList
      ((symbolTableLoadCommand m.loadCommands).toList.map fun c => some (c.symbolPlace is64Bit)) := by
    rw [List.forall₂_map_right_iff]
    refine (hbuilt.symbols.imp ?_).flip
    intro t c hc
    obtain ⟨hfit, rfl⟩ := symbolTable_eq_ok hc
    exact occupies_window h0 hfit rfl
  have hindirectPart : List.Forall₂ (MachoComponent.Occupies machoData) m.indirectSymbolTable.toList
      ((indirectSymbolTableLoadCommand m.loadCommands).toList.flatMap
        fun c => c.indirectPlace.toList.map some) := by
    obtain ⟨table, htable, hjoin⟩ := hbuilt.indirects
    rw [hjoin, join_toList]
    exact List.rel_flatMap htable.flip fun c t hc => indirectSymbolTable_occupies h0 hc
  have hstringPart : List.Forall₂ (MachoComponent.Occupies machoData) m.stringTable.toList
      ((symbolTableLoadCommand m.loadCommands).toList.map fun c => some c.stringPlace) := by
    rw [List.forall₂_map_right_iff]
    refine (hbuilt.strings.imp ?_).flip
    intro t c hc
    obtain ⟨hfit, rfl⟩ := stringTable_eq_ok hc
    exact occupies_window h0 hfit rfl
  unfold Macho.allComponents Macho.places
  rw [hbuilt.machoHeader]
  exact List.rel_append (List.rel_append (List.rel_append (List.rel_append (List.rel_append
    (List.rel_append (List.rel_append (List.rel_append (.cons hheaderPart .nil) hcommandPart)
      hsectionPart) hrelocationPart) hlinkedPart) hdyldPart) hsymbolPart) hindirectPart) hstringPart

theorem init_occupies_functionFile :
    ∃ m, Macho.init functionFile "f" functionFileHeader = .ok m ∧ m.allComponents.length = 8 ∧
      List.Forall₂ (MachoComponent.Occupies functionFile) m.allComponents m.places := by
  have hheader : MachoHeader.init functionFile true = .ok functionFileHeader := by decide +kernel
  have hlength : (Macho.init functionFile "f" functionFileHeader).toOption.map
      (fun m => m.allComponents.length) = some 8 := by decide +kernel
  cases hm : Macho.init functionFile "f" functionFileHeader with
  | error e =>
    rw [hm] at hlength
    cases hlength
  | ok m =>
    rw [hm] at hlength
    exact ⟨m, rfl, Option.some.inj hlength, init_occupies rfl hheader hm⟩

end Mocha
