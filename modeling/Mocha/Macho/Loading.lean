import Mocha.Components.Returns
import Mocha.Lib.ScheduleOutcome
import Mocha.Macho.Acceptance
import Mocha.Macho.Completion
import Mocha.Macho.Literals

/-!
# The files that can be loaded

`Macho.init` returns before most of a file was read. The components are read by the jobs of
`startAsyncInitialization()`, and a job that comes upon data it does not expect ends the program. Which
data that is depends on more than the component: a symbol needs its name in the string table, an indirect
symbol its entry in the symbol table, a literal pointer the C-string sections, a Swift descriptor
`__TEXT,__const`.

* `Macho.Initializes`, `Macho.Translates`: what each kind of component needs, in bytes of the file.
* `constructed_of_mem`: what the constructors have made sure of, so that no job can trap on it.
* `initializes_iff`, `translates_iff`: a component that sees settled tables returns iff it has what it
  needs.
* **`loading_outcome`**: every order of the jobs loads the file, if every component has what it needs, and
  otherwise every order comes to a job that traps.
-/

namespace Mocha

open Lib Data DataShifter

/-! ## What a component needs -/

/-- The bytes of a table of the file, none if there is no such table. -/
def tableBytes (table : Option MachoComponent) : Data := (table.map MachoComponent.data).getD ⟨0, []⟩

namespace Macho

variable (m : Macho)

/-- The number of symbols. -/
def symbolCount : Nat :=
  recordCount SymbolTableEntry m.machoHeader.is64Bit (tableBytes m.symbolTable)

/-- The number of indirect symbols. -/
def indirectCount : Nat := (tableBytes m.indirectSymbolTable).count / 4

/-- Word `n` of the indirect symbol table. -/
def indirectWord (n : Nat) : UInt32 := ((tableBytes m.indirectSymbolTable).uint32At (n * 4)).value

/-- There is an indirect symbol `n`, and the symbol it stands for, unless it is marked. -/
def NamesSymbol (n : Nat) : Prop :=
  n < m.indirectCount ∧
    (unnamedEntry (m.indirectWord n) = false → (m.indirectWord n).toNat < m.symbolCount)

/-- The offsets of a Swift section lead to no descriptor that sticks out of `__TEXT,__const`. -/
def SwiftReads (size : Nat) (d : Data) : Prop :=
  d.count % 4 = 0 ∧ ∀ c ∈ m.textConstComponent, ∀ i < d.count / 4,
    ¬ Overhangs c.data size (swiftTarget d i)

/-- What `runInitializing` of a component takes to return. -/
def Initializes (stack : Nat) (c : MachoComponent) : Prop :=
  match c.kind with
  | .protocolDescriptors _ => m.SwiftReads (SwiftMetadata.dataSize ProtocolDescriptor) c.data
  | .protocolConformances _ =>
    m.SwiftReads (SwiftMetadata.dataSize ProtocolConformanceDescriptor) c.data
  | .dataInCode is64Bit => ∀ i < recordCount DataInCodeModel is64Bit c.data,
    (DataInCodeKind.ofRaw? ((recordAt DataInCodeModel is64Bit c.data i).uint16At 6).value).isSome
  | .exportInfo _ => TrieLoads stack c.data
  | .rebase => OpcodesLoad RebaseOperationCodeMetadata c.data
  | .bind => OpcodesLoad BindOperationCodeMetadata c.data
  | .symbolTable is64Bit => ∀ i < recordCount SymbolTableEntry is64Bit c.data,
    SymbolReads (tableBytes m.stringTable) (recordAt SymbolTableEntry is64Bit c.data i)
  | _ => True

/-- What `runTranslating` of a component takes to return. -/
def Translates (c : MachoComponent) : Prop :=
  match c.kind with
  | .literalPointer is64Bit => ∀ i < c.data.count / addressSize is64Bit,
    Asked (addressAt is64Bit c.data (i * addressSize is64Bit)).value m.stringSections
  | .symbolPointer is64Bit _ start =>
    ∀ i < c.data.count / addressSize is64Bit, m.NamesSymbol (i + start)
  | .functionStarts address starts => ∀ f ∈ starts, f.value.address.toNat + address.toNat < 2 ^ 64
  | .symbolTable is64Bit => ∀ i < recordCount SymbolTableEntry is64Bit c.data,
    SymbolShows is64Bit m.sectionHeaders.length (recordAt SymbolTableEntry is64Bit c.data i)
  | .indirectSymbolTable _ => ∀ n < m.indirectCount, m.NamesSymbol n
  | _ => True

/-- A component has what its job takes to come to its end. -/
structure Loads (stack : Nat) (c : MachoComponent) : Prop where
  initializes : m.Initializes stack c
  translates : m.Translates c

end Macho

/-! ## What the constructors have made sure of -/

/-- What is known of a component that was constructed. -/
def MachoComponent.Constructed (c : MachoComponent) : Prop :=
  match c.kind with
  | .machoHeader header => ∃ gs, header.runTranslating = .ok gs
  | .loadCommand command => ∃ gs, command.runTranslating = .ok gs
  | .literalPointer is64Bit | .symbolPointer is64Bit _ _ => c.data.count % addressSize is64Bit = 0
  | .relocationTable infos => ∃ entries, initRelocations infos c.data = .ok entries
  | _ => True

section Constructed

variable {machoData : Data} {header : MachoHeader} {m : Macho} {c : MachoComponent}

theorem constructed_named (s : SectionHeader) (hkind : c.kind = namedSectionKind s) : c.Constructed := by
  have hcases : c.kind ∈ [.textConst, .uString, .cStringSection s.addr.value,
      .protocolDescriptors s.addr.value, .protocolConformances s.addr.value, .unknown] := by
    rw [hkind, namedSectionKind]
    split_ifs <;> simp
  unfold MachoComponent.Constructed
  simp only [List.mem_cons, List.not_mem_nil, or_false] at hcases
  rcases hcases with h | h | h | h | h | h <;> rw [h] <;> trivial

theorem createComponent_constructed {s : SectionHeader} (h : createComponent machoData header s = .ok c) :
    c.Constructed := by
  unfold createComponent at h
  rw [bind_eq_ok] at h
  obtain ⟨size, -, h⟩ := h
  cases htype : s.sectionType.value with
  | S_ZEROFILL | S_THREAD_LOCAL_ZEROFILL | S_GB_ZEROFILL =>
    rw [htype] at h
    cases h
    trivial
  | S_CSTRING_LITERALS =>
    rw [htype, bind_eq_ok] at h
    obtain ⟨d, -, h⟩ := h
    cases h
    trivial
  | S_LITERAL_POINTERS | S_LAZY_SYMBOL_POINTERS | S_NON_LAZY_SYMBOL_POINTERS |
      S_LAZY_DYLIB_SYMBOL_POINTERS =>
    rw [htype, bind_eq_ok] at h
    obtain ⟨d, -, h⟩ := h
    obtain ⟨hwhole, rfl⟩ := pointerComponent_eq_ok h
    exact hwhole
  | _ =>
    rw [htype] at h
    simp only at h
    split at h
    · rw [bind_eq_ok] at h
      obtain ⟨d, -, h⟩ := h
      obtain ⟨arch, rfl⟩ := instructionComponent_data h
      trivial
    · rw [bind_eq_ok] at h
      obtain ⟨d, -, h⟩ := h
      cases h
      exact constructed_named s rfl

theorem linkedITComponent_constructed {t : LCLinkedITData} {type : LoadCommandType} {title : String}
    {is64Bit : Bool} {text : Option LCSegment}
    (h : t.linkedITComponent type title machoData is64Bit text = .ok c) : c.Constructed := by
  unfold LCLinkedITData.linkedITComponent at h
  rw [bind_eq_ok] at h
  obtain ⟨d, -, h⟩ := h
  split at h
  · cases h
    trivial
  · cases h
    trivial
  · rw [guardLet_bind] at h
    obtain ⟨segment, -, h⟩ := h
    obtain ⟨starts, -, rfl⟩ := functionStartsComponent_eq_ok h
    trivial
  · cases h
    trivial
  · cases h
    trivial

theorem dyldInfoComponents_constructed {t : LCDyldInfo} {is64Bit : Bool} {cs : List MachoComponent}
    (h : t.dyldInfoComponents machoData is64Bit = .ok cs) : ∀ c ∈ cs, c.Constructed := by
  unfold LCDyldInfo.dyldInfoComponents at h
  rw [bind_eq_ok] at h
  obtain ⟨opts, hopts, h⟩ := h
  cases h
  intro c hc
  rw [List.reduceOption_mem_iff] at hc
  obtain ⟨b, hb, hcut⟩ := forall₂_exists_left (mapM_eq_ok.mp hopts) hc
  have hkind := dyldInfoComponent_kind hcut
  simp only [LCDyldInfo.blocks, List.mem_cons, List.not_mem_nil, or_false] at hb
  unfold MachoComponent.Constructed
  rw [hkind]
  rcases hb with rfl | rfl | rfl | rfl | rfl <;> trivial

/-- The tables of a file are told apart by their kinds. -/
theorem table_kind (h : m.Built machoData header) (hc : c ∈ m.allComponents) :
    (c.kind = .stringTable → m.stringTable = some c) ∧
    (∀ is64Bit, c.kind = .symbolTable is64Bit → m.symbolTable = some c ∧ is64Bit = header.is64Bit) ∧
    (∀ is64Bit, c.kind = .indirectSymbolTable is64Bit → m.indirectSymbolTable = some c) := by
  obtain ⟨hstrings, hsymbols, hindirects⟩ := tables_kind h
  by_cases htable : c.kind.isTable = true
  · rcases table_of_mem h hc htable with heq | heq | heq
    · simp [hsymbols c heq, heq]
    · simp [hindirects c heq, heq]
    · simp [hstrings c heq, heq]
  · refine ⟨?_, ?_, ?_⟩
    · intro hkind
      exact absurd (by rw [hkind]; rfl) htable
    · intro is64Bit hkind
      exact absurd (by rw [hkind]; rfl) htable
    · intro is64Bit hkind
      exact absurd (by rw [hkind]; rfl) htable

/-- **Every component of a file was constructed.** -/
theorem constructed_of_mem (h0 : machoData.startIndex = 0) {is64Bit : Bool}
    (hheader : MachoHeader.init machoData is64Bit = .ok header) (h : m.Built machoData header)
    (hc : c ∈ m.allComponents) : c.Constructed := by
  obtain ⟨hstrings, hsymbols, hindirects⟩ := tables_kind h
  have htable : c.kind.isTable = true → c.Constructed := by
    unfold MachoComponent.Constructed
    cases c.kind <;> first | exact fun _ => trivial | exact nofun
  simp only [Macho.allComponents, List.mem_append, Option.mem_toList, or_assoc] at hc
  rcases hc with hc | hc | hc | hc | hc | hc | hc | hc | hc
  · rw [List.mem_singleton.mp hc, h.machoHeader]
    exact machoHeader_translates h0 hheader
  · obtain ⟨command, hcommand, rfl⟩ := List.mem_map.mp hc
    obtain ⟨commandData, -, hcommands⟩ := h.commands
    obtain ⟨k, hk⟩ := (loadCommands_eq_ok.mp hcommands).commandAt hcommand
    exact loadCommand_translates hk
  · obtain ⟨s, -, hs⟩ := forall₂_exists_left h.sections hc
    exact createComponent_constructed hs
  · obtain ⟨tables, hall, hflat⟩ := h.relocations
    rw [hflat, List.reduceOption_mem_iff] at hc
    obtain ⟨s, -, hs⟩ := forall₂_exists_left hall hc
    obtain ⟨infos, htable, hkind⟩ := relocationComponent_eq_ok hs
    unfold MachoComponent.Constructed
    rw [hkind]
    exact relocations_return htable
  · obtain ⟨t, -, ht⟩ := forall₂_exists_left h.linkedITs hc
    exact linkedITComponent_constructed ht
  · obtain ⟨blocks, hblocks, hflat⟩ := h.dyldInfos
    rw [hflat, List.mem_flatten] at hc
    obtain ⟨cs, hcs, hc⟩ := hc
    obtain ⟨t, -, ht⟩ := forall₂_exists_left hblocks hcs
    exact dyldInfoComponents_constructed ht c hc
  · exact htable (by rw [hsymbols c hc]; rfl)
  · exact htable (by rw [hindirects c hc]; rfl)
  · exact htable (by rw [hstrings c hc]; rfl)

end Constructed

/-! ## What a component sees of the others -/

section Settled

variable {machoData : Data} {header : MachoHeader} {m : Macho} {c : MachoComponent} {i stack : Nat}
  {st : Nat → ComponentState}

theorem settled_run (hc : m.allComponents[i]? = some c) {v : ComponentState}
    (h : Settled (m.plan stack) m.orderedReads i v) :
    ∃ st, (∀ r ∈ m.orderedReads i, Settled (m.plan stack) m.orderedReads r (st r)) ∧
      c.runInitializing stack (m.view st) = .ok v := by
  cases h with
  | mk st hreads hv => exact ⟨st, hreads, (plan_prepare_eq_some hc).mp hv⟩

/-- The string table, once it is settled. -/
theorem settled_stringTable (h : m.Built machoData header) (hi : m.stringTableID = some i)
    (hs : Settled (m.plan stack) m.orderedReads i (st i)) :
    ∃ c, CStrings.runInitializing (tableBytes m.stringTable) = .ok c ∧
      (m.view st).stringTable = some c := by
  obtain ⟨c, hc, hkind⟩ := stringTableID_kind hi
  obtain ⟨w, -, hrun⟩ := settled_run hc hs
  unfold MachoComponent.runInitializing at hrun
  simp only [hkind, bind_eq_ok] at hrun
  obtain ⟨strings, hstrings, hrun⟩ := hrun
  refine ⟨strings, ?_, ?_⟩
  · rw [(table_kind h (List.mem_of_getElem? hc)).1 hkind]
    exact hstrings
  · rw [stringTable_view, hi, Option.map_some, ← Except.ok.inj hrun]

/-- The component of a symbol table reads the string table. -/
theorem mem_orderedReads_strings (hc : m.allComponents[i]? = some c) {is64Bit : Bool}
    (hkind : c.kind = .symbolTable is64Bit) {t : Nat} (ht : m.stringTableID = some t) :
    t ∈ m.orderedReads i := by
  have hno : c.hasFunctionStarts = false := by
    unfold MachoComponent.hasFunctionStarts
    rw [hkind]
  rw [orderedReads_eq hc hno, hkind, Macho.initializingReads, ht]
  exact List.mem_append_left _ (List.mem_singleton_self t)

/-- The symbol table, once it is settled: its entries were decoded by a component that saw the string
table. -/
theorem settled_symbolTable (h : m.Built machoData header)
    (hregistered : m.Registered m.allComponents.zipIdx m.edges) (hc : m.allComponents[i]? = some c)
    {is64Bit : Bool} (hkind : c.kind = .symbolTable is64Bit) {v : ComponentState}
    (hs : Settled (m.plan stack) m.orderedReads i v) :
    ∃ w strings models, CStrings.runInitializing (tableBytes m.stringTable) = .ok strings ∧
      w.stringTable = some strings ∧ initModels SymbolTableEntry is64Bit w c.data = .ok models ∧
      v.symbolTable = SymbolTable.ofModels models := by
  obtain ⟨parents, hparents⟩ := registers_returns hregistered hc
  rw [hkind] at hparents
  obtain ⟨t, ht, -⟩ := registersOne_eq_ok.mp hparents
  obtain ⟨w, hreads, hrun⟩ := settled_run hc hs
  obtain ⟨strings, hstrings, hview⟩ :=
    settled_stringTable h ht (hreads t (mem_orderedReads_strings hc hkind ht))
  unfold MachoComponent.runInitializing SymbolTable.runInitializing at hrun
  simp only [hkind, bind_eq_ok] at hrun
  obtain ⟨table, ⟨models, hmodels, htable⟩, hrun⟩ := hrun
  refine ⟨m.view w, strings, models, hstrings, hview, hmodels, ?_⟩
  rw [← Except.ok.inj hrun, ← Except.ok.inj htable]

/-- The symbol that is looked up exists. -/
theorem symbolName_returns_iff (h : m.Built machoData header)
    (hregistered : m.Registered m.allComponents.zipIdx m.edges) {j : Nat} (hj : m.symbolTableID = some j)
    (hs : Settled (m.plan stack) m.orderedReads j (st j)) {e : Nat} :
    (∃ name, (m.view st).symbolName e = .ok name) ↔ e < m.symbolCount := by
  obtain ⟨c, is64Bit, hc, hkind⟩ := symbolTableID_kind hj
  obtain ⟨w, strings, models, -, -, hmodels, htable⟩ := settled_symbolTable h hregistered hc hkind hs
  obtain ⟨hsome, rfl⟩ := (table_kind h (List.mem_of_getElem? hc)).2.1 is64Bit hkind
  have hlength : models.length = m.symbolCount := by
    rw [length_initModels hmodels, Macho.symbolCount, h.machoHeader, hsome]
    rfl
  unfold MachoView.symbolName
  simp only [symbolTable_view, hj, Option.map_some, htable, SymbolTable.findSymbolAt, SymbolTable.ofModels,
    guardLet_bind, ← hlength]
  constructor
  · rintro ⟨name, entry, hentry, -⟩
    exact (List.getElem?_eq_some_iff.mp hentry).1
  · intro hlt
    exact ⟨_, _, List.getElem?_eq_getElem hlt, rfl⟩

/-- The indirect symbol table, once it is settled: its entries are its words. -/
theorem settled_indirectSymbolTable (h : m.Built machoData header) (hc : m.allComponents[i]? = some c)
    {is64Bit : Bool} (hkind : c.kind = .indirectSymbolTable is64Bit) {v : ComponentState}
    (hs : Settled (m.plan stack) m.orderedReads i v) :
    v.indirectSymbols.length = m.indirectCount ∧ ∀ n < m.indirectCount, ∃ e, v.indirectSymbols[n]? = some e ∧
      (e.isSymbolLocal || e.isSymbolAbsolute) = unnamedEntry (m.indirectWord n) ∧
      e.symbolTableIndex.value = m.indirectWord n := by
  obtain ⟨w, -, hrun⟩ := settled_run hc hs
  unfold MachoComponent.runInitializing at hrun
  simp only [hkind, bind_eq_ok] at hrun
  obtain ⟨models, hmodels, hrun⟩ := hrun
  have hsize : modelSize IndirectSymbolTableEntry is64Bit = 4 := by cases is64Bit <;> rfl
  have hbytes : tableBytes m.indirectSymbolTable = c.data := by
    rw [(table_kind h (List.mem_of_getElem? hc)).2.2 is64Bit hkind]
    rfl
  have hcount : m.indirectCount = recordCount IndirectSymbolTableEntry is64Bit c.data := by
    rw [Macho.indirectCount, hbytes, recordCount, hsize]
  rw [← Except.ok.inj hrun]
  refine ⟨(length_initModels hmodels).trans hcount.symm, ?_⟩
  intro n hn
  have hfits : n * 4 + 4 ≤ c.data.count := by
    have hrecord := record_fits (hcount ▸ hn)
    rwa [hsize] at hrecord
  obtain ⟨entry, hentry, hinit⟩ := initModels_getElem? (i := n) hmodels (by rw [hsize]; decide)
    (by rw [hsize]; omega)
  rw [hsize] at hinit
  obtain rfl := indirectSymbol_init hfits hinit
  refine ⟨_, hentry, ?_, ?_⟩
  · rw [Macho.indirectWord, hbytes]
    simp only [and_pow_ne_zero _ 0x80000000 31 rfl, and_pow_ne_zero _ 0x40000000 30 rfl]
    rfl
  · rw [Macho.indirectWord, hbytes]

/-- **A symbol pointer is shown** iff its indirect symbol exists, with the symbol it stands for. -/
theorem symbolPointerName_returns_iff (h : m.Built machoData header)
    (hregistered : m.Registered m.allComponents.zipIdx m.edges) {j : Nat}
    (hi : m.indirectSymbolTableID = some i) (hj : m.symbolTableID = some j)
    (hindirects : Settled (m.plan stack) m.orderedReads i (st i))
    (hsymbols : Settled (m.plan stack) m.orderedReads j (st j)) {n : Nat} :
    (∃ name, symbolPointerName (m.view st) n = .ok name) ↔ m.NamesSymbol n := by
  obtain ⟨c, is64Bit, hc, hkind⟩ := indirectSymbolTableID_kind hi
  obtain ⟨hlength, hentries⟩ := settled_indirectSymbolTable h hc hkind hindirects
  unfold symbolPointerName findIndirectSymbol Macho.NamesSymbol
  simp only [indirectSymbolTable_view, hi, Option.map_some, guardLet_bind]
  by_cases hn : n < m.indirectCount
  · obtain ⟨e, he, hunnamed, hindex⟩ := hentries n hn
    simp only [he, Option.some_inj, exists_eq_left', hunnamed, hindex, hn, true_and]
    cases unnamedEntry (m.indirectWord n) with
    | true => exact iff_of_true ⟨_, rfl⟩ nofun
    | false =>
      rw [if_neg Bool.false_ne_true, symbolName_returns_iff h hregistered hj hsymbols]
      exact ⟨fun hlt _ => hlt, fun hall => hall rfl⟩
  · refine iff_of_false ?_ fun hnames => hn hnames.1
    rintro ⟨name, e, he, -⟩
    exact hn (hlength ▸ (List.getElem?_eq_some_iff.mp he).1)

end Settled

/-! ## When a component returns -/

theorem exists_bind_pure {α β : Type} {x : Run α} {f : α → β} :
    (∃ b, (x >>= fun a => pure (f a)) = .ok b) ↔ ∃ a, x = .ok a := by
  constructor
  · rintro ⟨b, hb⟩
    rw [bind_eq_ok] at hb
    obtain ⟨a, ha, -⟩ := hb
    exact ⟨a, ha⟩
  · rintro ⟨a, ha⟩
    rw [ha]
    exact ⟨_, rfl⟩

section Component

variable {machoData : Data} {header : MachoHeader} {m : Macho} {c : MachoComponent} {i stack : Nat}
  {st : Nat → ComponentState}

/-- **A component is initialized** iff it has what it needs. -/
theorem initializes_iff (h : m.Built machoData header)
    (hregistered : m.Registered m.allComponents.zipIdx m.edges) (hc : m.allComponents[i]? = some c)
    (hconstructed : c.Constructed)
    (hreads : ∀ r ∈ m.orderedReads i, Settled (m.plan stack) m.orderedReads r (st r)) :
    (∃ v, c.runInitializing stack (m.view st) = .ok v) ↔ m.Initializes stack c := by
  unfold MachoComponent.runInitializing Macho.Initializes
  unfold MachoComponent.Constructed at hconstructed
  have htext : (m.view st).textConst = m.textConstComponent.map MachoComponent.data := rfl
  cases hkind : c.kind with
  | cStringSection | stringTable =>
    simp only [exists_bind_pure]
    exact iff_of_true (cStrings_total c.data) trivial
  | literalPointer is64Bit | symbolPointer is64Bit =>
    rw [hkind] at hconstructed
    simp only [exists_bind_pure]
    exact iff_of_true (initPointers_returns hconstructed) trivial
  | uString =>
    simp only [exists_bind_pure]
    obtain ⟨ps, hps, -⟩ := initUStrings_cuts c.data
    exact iff_of_true ⟨ps, hps⟩ trivial
  | relocationTable infos =>
    rw [hkind] at hconstructed
    simp only [exists_bind_pure]
    exact iff_of_true hconstructed trivial
  | protocolDescriptors | protocolConformances =>
    simp only [exists_bind_pure, initSwiftMetadata_returns_iff, Macho.SwiftReads, htext,
      Option.mem_map, forall_exists_index, and_imp, forall_apply_eq_imp_iff₂]
  | dataInCode =>
    simp only [exists_bind_pure, dataInCode_returns_iff]
  | exportInfo =>
    simp only [exists_bind_pure, initExportInfo_returns_iff]
  | rebase =>
    simp only [exists_bind_pure, operationCodes_returns_iff rebase_follows]
  | bind =>
    simp only [exists_bind_pure, operationCodes_returns_iff bind_follows]
  | symbolTable is64Bit =>
    obtain ⟨parents, hparents⟩ := registers_returns hregistered hc
    rw [hkind] at hparents
    obtain ⟨t, ht, -⟩ := registersOne_eq_ok.mp hparents
    obtain ⟨strings, hstrings, hview⟩ :=
      settled_stringTable h ht (hreads t (mem_orderedReads_strings hc hkind ht))
    have hsize : modelSize SymbolTableEntry is64Bit = 8 + addressSize is64Bit := by
      cases is64Bit <;> rfl
    simp only [exists_bind_pure, SymbolTable.runInitializing]
    rw [initModels_returns_iff (by rw [hsize]; omega)]
    refine forall_congr' fun n => forall_congr' fun hn => ?_
    exact symbolTableEntry_returns_iff hstrings hview ((window_count _ (record_fits hn)).trans hsize)
  | indirectSymbolTable is64Bit =>
    have hsize : modelSize IndirectSymbolTableEntry is64Bit = 4 := by cases is64Bit <;> rfl
    simp only [exists_bind_pure]
    rw [initModels_returns_iff (by rw [hsize]; decide)]
    refine iff_of_true (fun n hn => ?_) trivial
    have hfits := record_fits hn
    change ∃ r, IndirectSymbolTableEntry.init (c.data.window _ _) = .ok r
    rw [hsize] at hfits ⊢
    unfold IndirectSymbolTableEntry.init
    rw [uint32_window hfits]
    exact ⟨_, rfl⟩
  | _ => exact iff_of_true ⟨_, rfl⟩ trivial

/-- The pointers that a settled section holds are the words of its data. -/
theorem settled_pointerValues (hc : m.allComponents[i]? = some c) {is64Bit : Bool}
    (hkind : c.kind = .literalPointer is64Bit ∨ ∃ type start, c.kind = .symbolPointer is64Bit type start)
    {v : ComponentState} (hs : Settled (m.plan stack) m.orderedReads i v) :
    v.pointerValues = (List.range (c.data.count / addressSize is64Bit)).map fun n =>
      addressAt is64Bit c.data (n * addressSize is64Bit) := by
  obtain ⟨w, -, hrun⟩ := settled_run hc hs
  unfold MachoComponent.runInitializing at hrun
  rcases hkind with hkind | ⟨type, start, hkind⟩
  · simp only [hkind, bind_eq_ok] at hrun
    obtain ⟨ps, hps, hrun⟩ := hrun
    rw [← Except.ok.inj hrun]
    exact initPointers_eq hps
  · simp only [hkind, bind_eq_ok] at hrun
    obtain ⟨ps, hps, hrun⟩ := hrun
    rw [← Except.ok.inj hrun]
    exact initPointers_eq hps

/-- An indirect symbol is shown iff it is marked or its symbol is found. -/
theorem indirectSymbol_returns_iff {v : MachoView} {e : IndirectSymbolTableEntry} :
    (∃ ts, e.translations v = .ok ts) ↔ ((e.isSymbolLocal || e.isSymbolAbsolute) = false →
      ∃ name, v.symbolName e.symbolTableIndex.value.toNat = .ok name) := by
  unfold IndirectSymbolTableEntry.translations
  cases e.isSymbolLocal || e.isSymbolAbsolute with
  | true => exact iff_of_true ⟨_, rfl⟩ nofun
  | false =>
    rw [if_neg Bool.false_ne_true, exists_bind_pure]
    exact ⟨fun hname _ => hname, fun hname => hname rfl⟩

/-- The tables a section of symbol pointers reads are settled. -/
theorem mem_orderedReads_pointers (hc : m.allComponents[i]? = some c) {is64Bit : Bool} {type : SectionType}
    {start : Nat} (hkind : c.kind = .symbolPointer is64Bit type start) {r : Nat}
    (hr : m.indirectSymbolTableID = some r ∨ m.symbolTableID = some r) : r ∈ m.orderedReads i := by
  have hno : c.hasFunctionStarts = false := by
    unfold MachoComponent.hasFunctionStarts
    rw [hkind]
  rw [orderedReads_eq hc hno, hkind]
  simpa [Macho.initializingReads, Macho.translatingReads] using hr

/-- **Literal pointers** are shown iff the C-string sections can be asked for each of them. -/
theorem literalPointers_translate_iff (hc : m.allComponents[i]? = some c) {is64Bit : Bool}
    (hkind : c.kind = .literalPointer is64Bit)
    (hown : Settled (m.plan stack) m.orderedReads i (st i))
    (hreads : ∀ r ∈ m.orderedReads i, Settled (m.plan stack) m.orderedReads r (st r)) :
    (∃ gs, translatePointers (fun p _ => literalPointerTranslation is64Bit (m.view st) p)
        (st i).pointerValues = .ok gs) ↔
      ∀ n < c.data.count / addressSize is64Bit,
        Asked (addressAt is64Bit c.data (n * addressSize is64Bit)).value m.stringSections := by
  have hno : c.hasFunctionStarts = false := by
    unfold MachoComponent.hasFunctionStarts
    rw [hkind]
  have hfilled := @stringSections_filled m stack st fun p hp => hreads p.1 (by
    rw [orderedReads_eq hc hno, hkind]
    exact List.mem_append_right _ (List.mem_map_of_mem hp))
  simp only [settled_pointerValues hc (.inl hkind) hown, translatePointers_returns_iff,
    exists_literalPointerTranslation hfilled]

/-- **Symbol pointers** are shown iff each of them has its indirect symbol. -/
theorem symbolPointers_translate_iff (h : m.Built machoData header)
    (hregistered : m.Registered m.allComponents.zipIdx m.edges) (hc : m.allComponents[i]? = some c)
    {is64Bit : Bool} {type : SectionType} {start : Nat} (hkind : c.kind = .symbolPointer is64Bit type start)
    (hown : Settled (m.plan stack) m.orderedReads i (st i))
    (hreads : ∀ r ∈ m.orderedReads i, Settled (m.plan stack) m.orderedReads r (st r)) :
    (∃ gs, translatePointers (symbolPointerTranslation is64Bit type start (m.view st))
        (st i).pointerValues = .ok gs) ↔
      ∀ n < c.data.count / addressSize is64Bit, m.NamesSymbol (n + start) := by
  obtain ⟨parents, hparents⟩ := registers_returns hregistered hc
  rw [hkind] at hparents
  obtain ⟨k, hk, -⟩ := registersOne_eq_ok.mp hparents
  obtain ⟨x, b, hx, hxkind⟩ := indirectSymbolTableID_kind hk
  obtain ⟨parents, hparents⟩ := registers_returns hregistered hx
  rw [hxkind] at hparents
  obtain ⟨j, hj, -⟩ := registersOne_eq_ok.mp hparents
  have hname : ∀ n, (∃ name, symbolPointerName (m.view st) n = .ok name) ↔ m.NamesSymbol n := fun n =>
    symbolPointerName_returns_iff h hregistered hk hj
      (hreads k (mem_orderedReads_pointers hc hkind (.inl hk)))
      (hreads j (mem_orderedReads_pointers hc hkind (.inr hj)))
  simp only [settled_pointerValues hc (.inr ⟨type, start, hkind⟩) hown, translatePointers_returns_iff,
    symbolPointerTranslation, exists_bind_pure, hname]

/-- **The symbol table** is shown iff each of its entries is. -/
theorem symbolTable_translates_iff (h : m.Built machoData header)
    (hregistered : m.Registered m.allComponents.zipIdx m.edges) (hc : m.allComponents[i]? = some c)
    {is64Bit : Bool} (hkind : c.kind = .symbolTable is64Bit)
    (hown : Settled (m.plan stack) m.orderedReads i (st i))
    (hreads : ∀ r ∈ m.orderedReads i, Settled (m.plan stack) m.orderedReads r (st r)) :
    (∃ gs, translateModels (m.view st) (st i).symbolTable.models = .ok gs) ↔
      ∀ n < recordCount SymbolTableEntry is64Bit c.data,
        SymbolShows is64Bit m.sectionHeaders.length (recordAt SymbolTableEntry is64Bit c.data n) := by
  obtain ⟨parents, hparents⟩ := registers_returns hregistered hc
  rw [hkind] at hparents
  obtain ⟨t, ht, -⟩ := registersOne_eq_ok.mp hparents
  obtain ⟨strings, hstrings, hview⟩ :=
    settled_stringTable h ht (hreads t (mem_orderedReads_strings hc hkind ht))
  obtain ⟨w, _, models, -, -, hmodels, htable⟩ := settled_symbolTable h hregistered hc hkind hown
  have hpos : 0 < modelSize SymbolTableEntry is64Bit := by cases is64Bit <;> decide
  have hall := (initModels_returns_iff hpos).mp ⟨models, hmodels⟩
  simp only [htable, translateModels, SymbolTable.ofModels, exists_mapM_eq_ok]
  rw [forall_initModels hpos hmodels]
  refine forall_congr' fun n => forall_congr' fun hn => ?_
  obtain ⟨r, hr⟩ := hall n hn
  have hone := symbolTranslations_returns_iff hstrings hview hr
  constructor
  · exact fun hts => hone.mp (hts r hr)
  · intro hshows r' hr'
    rw [hr, Except.ok.injEq] at hr'
    exact hr' ▸ hone.mpr hshows

/-- **The indirect symbol table** is shown iff each of its entries names a symbol. -/
theorem indirectSymbolTable_translates_iff (h : m.Built machoData header)
    (hregistered : m.Registered m.allComponents.zipIdx m.edges) (hc : m.allComponents[i]? = some c)
    {is64Bit : Bool} (hkind : c.kind = .indirectSymbolTable is64Bit)
    (hown : Settled (m.plan stack) m.orderedReads i (st i))
    (hreads : ∀ r ∈ m.orderedReads i, Settled (m.plan stack) m.orderedReads r (st r)) :
    (∃ gs, translateModels (m.view st) (st i).indirectSymbols = .ok gs) ↔
      ∀ n < m.indirectCount, m.NamesSymbol n := by
  obtain ⟨parents, hparents⟩ := registers_returns hregistered hc
  rw [hkind] at hparents
  obtain ⟨j, hj, -⟩ := registersOne_eq_ok.mp hparents
  have hno : c.hasFunctionStarts = false := by
    unfold MachoComponent.hasFunctionStarts
    rw [hkind]
  have hsymbols := hreads j (by
    rw [orderedReads_eq hc hno, hkind]
    simp [Macho.initializingReads, Macho.translatingReads, hj])
  obtain ⟨hlength, hentries⟩ := settled_indirectSymbolTable h hc hkind hown
  have hone : ∀ n < m.indirectCount, ∀ e, (st i).indirectSymbols[n]? = some e →
      ((∃ ts, e.translations (m.view st) = .ok ts) ↔ m.NamesSymbol n) := by
    intro n hn e he
    obtain ⟨e', he', hunnamed, hindex⟩ := hentries n hn
    rw [he', Option.some_inj] at he
    subst he
    rw [indirectSymbol_returns_iff, hunnamed, hindex,
      symbolName_returns_iff h hregistered hj hsymbols, Macho.NamesSymbol, and_iff_right hn]
  unfold translateModels
  rw [exists_mapM_eq_ok]
  constructor
  · intro hall n hn
    obtain ⟨e, he, -⟩ := hentries n hn
    exact (hone n hn e he).mp (hall e (List.mem_of_getElem? he))
  · intro hall e he
    obtain ⟨n, hn⟩ := List.mem_iff_getElem?.mp he
    have hlt : n < m.indirectCount := hlength ▸ (List.getElem?_eq_some_iff.mp hn).1
    exact (hone n hlt e hn).mpr (hall n hlt)

/-- **A component is translated** iff it has what it needs; function starts apart, which may look at a
table that has not settled. -/
theorem translates_iff (h : m.Built machoData header)
    (hregistered : m.Registered m.allComponents.zipIdx m.edges) (hc : m.allComponents[i]? = some c)
    (hconstructed : c.Constructed) (hstarts : c.hasFunctionStarts = false)
    (hown : Settled (m.plan stack) m.orderedReads i (st i))
    (hreads : ∀ r ∈ m.orderedReads i, Settled (m.plan stack) m.orderedReads r (st r)) :
    (∃ gs, c.runTranslating (m.view st) (st i) = .ok gs) ↔ m.Translates c := by
  unfold MachoComponent.runTranslating Macho.Translates
  unfold MachoComponent.Constructed at hconstructed
  cases hkind : c.kind with
  | machoHeader | loadCommand =>
    rw [hkind] at hconstructed
    exact iff_of_true hconstructed trivial
  | uString =>
    obtain ⟨w, -, hrun⟩ := settled_run hc hown
    unfold MachoComponent.runInitializing at hrun
    simp only [hkind, bind_eq_ok] at hrun
    obtain ⟨ps, hps, hrun⟩ := hrun
    simp only [← Except.ok.inj hrun]
    exact iff_of_true (uStrings_translate hps) trivial
  | literalPointer => exact literalPointers_translate_iff hc hkind hown hreads
  | symbolPointer => exact symbolPointers_translate_iff h hregistered hc hkind hown hreads
  | functionStarts address starts =>
    have hnil : starts = [] := by
      unfold MachoComponent.hasFunctionStarts at hstarts
      rw [hkind] at hstarts
      simpa using hstarts
    subst hnil
    exact iff_of_true ⟨_, rfl⟩ fun f hf => absurd hf List.not_mem_nil
  | dataInCode =>
    refine iff_of_true ?_ trivial
    unfold translateModels
    rw [exists_mapM_eq_ok]
    exact fun r _ => ⟨_, rfl⟩
  | symbolTable => exact symbolTable_translates_iff h hregistered hc hkind hown hreads
  | indirectSymbolTable => exact indirectSymbolTable_translates_iff h hregistered hc hkind hown hreads
  | _ => exact iff_of_true ⟨_, rfl⟩ trivial

/-- **Function starts** are shown iff each function has an address, whether or not the symbol table has
settled. -/
theorem functionStarts_translate_iff (h : m.Built machoData header)
    (hregistered : m.Registered m.allComponents.zipIdx m.edges) {address : UInt64}
    {starts : List (Field FunctionStart)}
    (hothers : ∀ d, (m.plan stack).FreshOrSettled m.orderedReads d (st d)) :
    (∃ gs, translateFunctionStarts address (m.view st) starts = .ok gs) ↔
      ∀ f ∈ starts, f.value.address.toNat + address.toNat < 2 ^ 64 := by
  refine translateFunctionStarts_returns_iff (functionName_returns ?_)
  intro t ht
  rw [symbolTable_view, Option.map_eq_some_iff] at ht
  obtain ⟨j, hj, rfl⟩ := ht
  obtain ⟨c, is64Bit, hc, hkind⟩ := symbolTableID_kind hj
  rcases hothers j with hfresh | hsettled
  · rw [hfresh]
    exact .inl rfl
  · obtain ⟨w, strings, models, -, -, -, htable⟩ := settled_symbolTable h hregistered hc hkind hsettled
    exact .inr ⟨models, htable⟩

end Component

/-! ## When a file is loaded -/

/-- The component at a position has what it needs. -/
def Macho.LoadsAt (m : Macho) (stack i : Nat) : Prop :=
  ∀ c, m.allComponents[i]? = some c → m.Loads stack c

section File

variable {machoData : Data} {header : MachoHeader} {m : Macho} {is64Bit : Bool}

/-- **What the jobs of a file need.** -/
theorem plan_needs (h0 : machoData.startIndex = 0)
    (hheader : MachoHeader.init machoData is64Bit = .ok header) (h : m.Built machoData header)
    (hregistered : m.Registered m.allComponents.zipIdx m.edges) (stack : Nat) :
    (m.plan stack).Needs m.orderedReads (m.LoadsAt stack) := by
  have hconstructed : ∀ {i : Nat} {c : MachoComponent}, m.allComponents[i]? = some c →
      c.Constructed := fun hc =>
    constructed_of_mem h0 hheader h (List.mem_of_getElem? hc)
  have hposition : ∀ {i}, i ∈ (m.plan stack).components → ∃ c, m.allComponents[i]? = some c := fun hi =>
    ⟨_, List.getElem?_eq_getElem (mem_plan_components.mp hi)⟩
  refine ⟨orderedReads_before hregistered stack, ?_, ?_, ?_⟩
  · rintro i - gs ⟨st, hown, hreads, hgs⟩ c hc
    rw [plan_translate_eq_some hc] at hgs
    obtain ⟨st', hreads', hrun⟩ := settled_run hc hown
    refine ⟨(initializes_iff h hregistered hc (hconstructed hc) hreads').mp ⟨_, hrun⟩, ?_⟩
    by_cases hstarts : c.hasFunctionStarts = true
    · obtain ⟨address, starts, hkind, -⟩ := hasFunctionStarts_iff.mp hstarts
      simp only [MachoComponent.runTranslating, hkind] at hgs
      simp only [Macho.Translates, hkind]
      intro f hf
      obtain ⟨t, ht⟩ := translateFunctionStarts_exists.mp ⟨gs, hgs⟩ f hf
      exact functionTranslation_fits ht
    · exact (translates_iff h hregistered hc (hconstructed hc) (Bool.eq_false_iff.mpr hstarts) hown
        hreads).mp ⟨gs, hgs⟩
  · intro i hi hneed st hreads
    obtain ⟨c, hc⟩ := hposition hi
    obtain ⟨v, hv⟩ := (initializes_iff h hregistered hc (hconstructed hc) hreads).mpr (hneed c hc).initializes
    rw [(plan_prepare_eq_some hc).mpr hv]
    exact Option.some_ne_none v
  · intro i hi hneed st hown hreads hothers
    obtain ⟨c, hc⟩ := hposition hi
    have htranslates := (hneed c hc).translates
    have hgs : ∃ gs, c.runTranslating (m.view st) (st i) = .ok gs := by
      by_cases hstarts : c.hasFunctionStarts = true
      · obtain ⟨address, starts, hkind, -⟩ := hasFunctionStarts_iff.mp hstarts
        simp only [Macho.Translates, hkind] at htranslates
        simp only [MachoComponent.runTranslating, hkind]
        exact (functionStarts_translate_iff h hregistered hothers).mpr htranslates
      · exact (translates_iff h hregistered hc (hconstructed hc) (Bool.eq_false_iff.mpr hstarts) hown
          hreads).mpr htranslates
    obtain ⟨gs, hgs⟩ := hgs
    rw [(plan_translate_eq_some hc).mpr hgs]
    exact Option.some_ne_none gs

end File

theorem forall_loadsAt {m : Macho} {stack : Nat} :
    (∀ i ∈ (m.plan stack).components, m.LoadsAt stack i) ↔ ∀ c ∈ m.allComponents, m.Loads stack c := by
  constructor
  · intro h c hc
    obtain ⟨i, hi⟩ := List.mem_iff_getElem?.mp hc
    exact h i (mem_plan_components.mpr (List.getElem?_eq_some_iff.mp hi).1) c hi
  · intro h i _ c hc
    exact h c (List.mem_of_getElem? hc)

/-- **The order of the jobs does not decide whether a file is loaded.** Take a file that was opened. If every
component has what it needs, in bytes of the file, then no order of the main thread and the jobs ever comes to
a job that traps, and every run can be continued until all components are done. If a component lacks what it
needs, then no order gets that far, and every run can be continued until a job traps. -/
theorem loading_outcome {machoData : Data} {name : String} {header : MachoHeader} {m : Macho}
    {is64Bit : Bool} (h0 : machoData.startIndex = 0)
    (hheader : MachoHeader.init machoData is64Bit = .ok header)
    (h : Macho.init machoData name header = .ok m) {stack : Nat}
    {s : State Nat ComponentState (List TranslationGroup)} (hs : (m.plan stack).Reachable s) :
    ((∀ c ∈ m.allComponents, m.Loads stack c) → ¬ (m.plan stack).Traps s ∧
      ∃ more t, (m.plan stack).run s more = some t ∧ t.Quiescent ∧
        ∀ i < m.allComponents.length, (t.cells i).isDone = true) ∧
    ((¬ ∀ c ∈ m.allComponents, m.Loads stack c) → ¬ s.Quiescent ∧
      ∃ more t, (m.plan stack).run s more = some t ∧ (m.plan stack).Traps t) := by
  have hregistered := init_registered h
  have hwf := plan_wf hregistered stack
  have hneeds := plan_needs h0 hheader (init_built h) hregistered stack
  rw [← forall_loadsAt]
  constructor
  · intro hloads
    refine ⟨hneeds.not_traps hwf hloads hs, ?_⟩
    obtain ⟨more, t, hrun, hquiescent⟩ := hneeds.exists_run hwf hloads hs
    refine ⟨more, t, hrun, hquiescent, ?_⟩
    intro i hi
    exact (Plan.reachable_of_run _ hs hrun).quiescent_done hwf hquiescent (mem_plan_components.mpr hi)
  · intro hlack
    exact ⟨fun hquiescent => hlack (hneeds.of_quiescent hwf hs hquiescent), hneeds.exists_trap hwf hlack hs⟩

theorem functionFile_header : MachoHeader.init functionFile true = .ok functionFileHeader := by
  decide +kernel

/-- The components of `functionFile` have what they need: one order loads it. -/
theorem functionFile_loads {m : Macho} (h : Macho.init functionFile "f" functionFileHeader = .ok m) :
    ∀ c ∈ m.allComponents, m.Loads 0 c := by
  have hrun : (functionFileRun functionStartsFirst).map (fun r => (r.2.queue, r.2.jobs)) =
      some ([], []) := by
    decide +kernel
  obtain ⟨⟨m', s⟩, hms, hempty⟩ := Option.map_eq_some_iff.mp hrun
  rw [Prod.mk.injEq] at hempty
  obtain ⟨hinit, hs⟩ := functionFileRun_eq_some hms
  rw [h, Except.ok.injEq] at hinit
  subst hinit
  have hregistered := init_registered h
  have hneeds := plan_needs rfl functionFile_header (init_built h) hregistered 0
  exact forall_loadsAt.mp (hneeds.of_quiescent (plan_wf hregistered 0) hs hempty)

/-- `functionFile` with its symbol in section 2, which does not exist. -/
def sectionlessFile : Data := ⟨0, functionFile.bytes.take 229 ++ [2] ++ functionFile.bytes.drop 230⟩

/-- Its symbol table cannot be shown. -/
theorem sectionlessFile_lacks {m : Macho}
    (h : Macho.init sectionlessFile "f" functionFileHeader = .ok m) :
    ¬ ∀ c ∈ m.allComponents, m.Loads 0 c := by
  have hfacts : (Macho.init sectionlessFile "f" functionFileHeader).toOption.map (fun m =>
      (m.allComponents[6]?.map fun c => (c.kind, recordCount SymbolTableEntry true c.data,
        ((recordAt SymbolTableEntry true c.data 0).uint8At 4).value,
        ((recordAt SymbolTableEntry true c.data 0).uint8At 5).value), m.sectionHeaders.length)) =
      some (some (.symbolTable true, 1, 0x0e, 2), 1) := by
    decide +kernel
  rw [h] at hfacts
  simp only [Except.toOption, Option.map_some, Option.some_inj, Prod.mk.injEq, Option.map_eq_some_iff] at hfacts
  obtain ⟨⟨c, hc, hkind, hcount, htype, hsect⟩, hsections⟩ := hfacts
  intro hall
  have htranslates := (hall c (List.mem_of_getElem? hc)).translates
  simp only [Macho.Translates, hkind] at htranslates
  have hshown := (htranslates 0 (by rw [hcount]; decide)).section_
  rw [IsStab, symbolTypeBits, htype, hsect, hsections] at hshown
  exact absurd (hshown (by decide) rfl).2 (by decide)

/-- `functionFile` is loaded in every order, `sectionlessFile` in none. -/
theorem loading_outcome_functionFile :
    (∃ m, Macho.init functionFile "f" functionFileHeader = .ok m ∧
      (∀ c ∈ m.allComponents, m.Loads 0 c) ∧ ∃ more t, (m.plan 0).run (m.plan 0).start more = some t ∧
        t.Quiescent ∧ ∀ i < m.allComponents.length, (t.cells i).isDone = true) ∧
    ∃ m, Macho.init sectionlessFile "f" functionFileHeader = .ok m ∧
      ∃ more t, (m.plan 0).run (m.plan 0).start more = some t ∧ (m.plan 0).Traps t := by
  constructor
  · have hinit : (Macho.init functionFile "f" functionFileHeader).toOption.isSome = true := by
      decide +kernel
    obtain ⟨m, hm⟩ := Option.isSome_iff_exists.mp hinit
    rw [toOption_eq_some] at hm
    have hloads := functionFile_loads hm
    exact ⟨m, hm, hloads, ((loading_outcome rfl functionFile_header hm .refl).1 hloads).2⟩
  · have hheader : MachoHeader.init sectionlessFile true = .ok functionFileHeader := by
      decide +kernel
    have hinit : (Macho.init sectionlessFile "f" functionFileHeader).toOption.isSome = true := by
      decide +kernel
    obtain ⟨m, hm⟩ := Option.isSome_iff_exists.mp hinit
    rw [toOption_eq_some] at hm
    exact ⟨m, hm, ((loading_outcome rfl hheader hm .refl).2 (sectionlessFile_lacks hm)).2⟩

end Mocha
