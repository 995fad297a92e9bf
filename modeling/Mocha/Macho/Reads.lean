import Mocha.Macho.Scheduler

/-!
# What the components read of each other

`initializingReads` and `translatingReads` are the components whose filled-in state
`runInitializing` and `runTranslating` look at, through `macho`. Neither method sees anything else of
the others (`runInitializing_congr`, `runTranslating_congr`).

Every component registers with what it reads, or with something that does, except for
`FunctionStartsComponent`: it registers with the string table and reads the symbol table.
**`scheduleIndependent_iff`**: the result of a file depends on the order of the jobs exactly when
it has a symbol table and a function start to be shown with its name.
-/

namespace Mocha

open Lib

namespace Macho

variable (m : Macho)

/-- The components whose state `runInitializing` of a component reads. -/
def initializingReads : ComponentKind → List Nat
  | .symbolTable _ => m.stringTableID.toList
  | _ => []

/-- The components whose state `runTranslating` of a component reads. -/
def translatingReads : ComponentKind → List Nat
  | .symbolTable _ => m.stringTableID.toList
  | .indirectSymbolTable _ => m.symbolTableID.toList
  | .symbolPointer _ _ _ => m.indirectSymbolTableID.toList ++ m.symbolTableID.toList
  | .literalPointer _ => m.cStringSections.map Prod.fst
  | .functionStarts _ starts => if starts = [] then [] else m.symbolTableID.toList
  | _ => []

/-- The components whose state the component at a position reads. -/
def reads (i : Nat) : List Nat :=
  match m.allComponents[i]? with
  | some c => m.initializingReads c.kind ++ m.translatingReads c.kind
  | none => []

end Macho

/-! ## Nothing else is read -/

section View

variable {v w : MachoView}

theorem findString_congr (h : v.stringTable = w.stringTable) (offset : Nat) :
    v.findString offset = w.findString offset := by
  unfold MachoView.findString
  rw [h]

theorem symbolName_congr (h : v.symbolTable = w.symbolTable) (index : Nat) :
    v.symbolName index = w.symbolName index := by
  unfold MachoView.symbolName
  rw [h]

theorem initSwiftMetadata_congr {MetaData : Type} [SwiftMetadata MetaData]
    (h : v.textConst = w.textConst) (d : Data) :
    (initSwiftMetadata v d : Run (List (SwiftMetadataContainer MetaData))) =
      initSwiftMetadata w d := by
  have hmeta : ∀ i, (swiftMetadata v i : Run (Option MetaData)) = swiftMetadata w i := by
    intro i
    unfold swiftMetadata
    rw [h]
  unfold initSwiftMetadata swiftMetadataContainer
  simp only [hmeta]

theorem symbolTableEntry_init_congr (h : v.stringTable = w.stringTable) (is64Bit : Bool) (d : Data) :
    SymbolTableEntry.init is64Bit v d = SymbolTableEntry.init is64Bit w d := by
  unfold SymbolTableEntry.init SymbolTableEntry.name
  simp only [findString_congr h]

theorem symbolTable_runInitializing_congr (h : v.stringTable = w.stringTable) (is64Bit : Bool)
    (d : Data) :
    SymbolTable.runInitializing is64Bit v d = SymbolTable.runInitializing is64Bit w d := by
  have hentry : ∀ e, (InterpretableModel.init is64Bit v e : Run SymbolTableEntry) =
      InterpretableModel.init is64Bit w e := symbolTableEntry_init_congr h is64Bit
  unfold SymbolTable.runInitializing initModels
  simp only [hentry]

theorem symbolTableEntries_congr (h : v.stringTable = w.stringTable)
    (hheaders : v.sectionHeaders = w.sectionHeaders) (models : List SymbolTableEntry) :
    translateModels v models = translateModels w models := by
  have hentry : (InterpretableModel.translations v : SymbolTableEntry → _) =
      InterpretableModel.translations w := by
    funext e
    change SymbolTableEntry.translations v e = SymbolTableEntry.translations w e
    unfold SymbolTableEntry.translations SymbolTableEntry.typeExplanation
      SymbolTableEntry.valueExplanation
    simp only [findString_congr h, hheaders]
  unfold translateModels
  rw [hentry]

theorem indirectSymbols_congr (h : v.symbolTable = w.symbolTable)
    (models : List IndirectSymbolTableEntry) :
    translateModels v models = translateModels w models := by
  have hentry : (InterpretableModel.translations v : IndirectSymbolTableEntry → _) =
      InterpretableModel.translations w := by
    funext e
    change IndirectSymbolTableEntry.translations v e = IndirectSymbolTableEntry.translations w e
    unfold IndirectSymbolTableEntry.translations
    simp only [symbolName_congr h]
  unfold translateModels
  rw [hentry]

theorem symbolPointerTranslation_congr (h : v.symbolTable = w.symbolTable)
    (hindirect : v.indirectSymbolTable = w.indirectSymbolTable) (is64Bit : Bool)
    (type : SectionType) (start : Nat) :
    symbolPointerTranslation is64Bit type start v = symbolPointerTranslation is64Bit type start w := by
  have hname : ∀ i, symbolPointerName v i = symbolPointerName w i := by
    intro i
    unfold symbolPointerName
    simp only [hindirect, symbolName_congr h]
  funext p i
  unfold symbolPointerTranslation
  rw [hname]

theorem literalPointerTranslation_congr (h : v.cStringSections = w.cStringSections)
    (is64Bit : Bool) : literalPointerTranslation is64Bit v = literalPointerTranslation is64Bit w := by
  funext p
  unfold literalPointerTranslation
  rw [h]

theorem translateFunctionStarts_congr (h : v.symbolTable = w.symbolTable) (a : UInt64)
    (starts : List (Field FunctionStart)) :
    translateFunctionStarts a v starts = translateFunctionStarts a w starts := by
  have hfunction : functionTranslation a v = functionTranslation a w := by
    funext f
    unfold functionTranslation MachoView.functionName
    rw [h]
  unfold translateFunctionStarts
  rw [hfunction]

end View

section Congruence

variable {m : Macho} {st st' : Nat → ComponentState}

/-- A table that is seen by its position depends on the state at that position. -/
theorem table_congr {β : Type} (f : ComponentState → β) {id : Option Nat}
    (h : ∀ r ∈ id.toList, st r = st' r) : (id.map fun i => f (st i)) = id.map fun i => f (st' i) := by
  cases id with
  | none => rfl
  | some i => rw [Option.map_some, Option.map_some, h i (List.mem_singleton_self i)]

theorem view_stringTable (h : ∀ r ∈ m.stringTableID.toList, st r = st' r) :
    (m.view st).stringTable = (m.view st').stringTable := by
  rw [stringTable_view, stringTable_view]
  exact table_congr ComponentState.cStrings h

theorem view_symbolTable (h : ∀ r ∈ m.symbolTableID.toList, st r = st' r) :
    (m.view st).symbolTable = (m.view st').symbolTable := by
  rw [symbolTable_view, symbolTable_view]
  exact table_congr ComponentState.symbolTable h

theorem view_indirectSymbolTable (h : ∀ r ∈ m.indirectSymbolTableID.toList, st r = st' r) :
    (m.view st).indirectSymbolTable = (m.view st').indirectSymbolTable := by
  rw [indirectSymbolTable_view, indirectSymbolTable_view]
  exact table_congr ComponentState.indirectSymbols h

theorem view_cStringSections (h : ∀ r ∈ m.cStringSections.map Prod.fst, st r = st' r) :
    (m.view st).cStringSections = (m.view st').cStringSections := by
  simp only [Macho.view]
  refine List.map_congr_left ?_
  intro p hp
  rw [h p.1 (List.mem_map_of_mem hp)]

/-- `runInitializing` reads only the components of `initializingReads`. -/
theorem runInitializing_congr {c : MachoComponent} (stack : Nat)
    (h : ∀ r ∈ m.initializingReads c.kind, st r = st' r) :
    c.runInitializing stack (m.view st) = c.runInitializing stack (m.view st') := by
  unfold MachoComponent.runInitializing
  cases hkind : c.kind with
  | symbolTable is64Bit =>
    rw [hkind, Macho.initializingReads] at h
    simp only [symbolTable_runInitializing_congr (view_stringTable h)]
  | protocolDescriptors =>
    have htext : (m.view st).textConst = (m.view st').textConst := rfl
    simp only [initSwiftMetadata_congr htext]
  | protocolConformances =>
    have htext : (m.view st).textConst = (m.view st').textConst := rfl
    simp only [initSwiftMetadata_congr htext]
  | _ => rfl

/-- `runTranslating` reads only the component itself and the components of `translatingReads`. -/
theorem runTranslating_congr {c : MachoComponent} (own : ComponentState)
    (h : ∀ r ∈ m.translatingReads c.kind, st r = st' r) :
    c.runTranslating (m.view st) own = c.runTranslating (m.view st') own := by
  unfold MachoComponent.runTranslating
  cases hkind : c.kind with
  | symbolTable =>
    rw [hkind, Macho.translatingReads] at h
    exact symbolTableEntries_congr (view_stringTable h) rfl _
  | indirectSymbolTable =>
    rw [hkind, Macho.translatingReads] at h
    exact indirectSymbols_congr (view_symbolTable h) _
  | symbolPointer =>
    rw [hkind, Macho.translatingReads] at h
    have hindirect := view_indirectSymbolTable fun r hr => h r (List.mem_append_left _ hr)
    have hsymbol := view_symbolTable fun r hr => h r (List.mem_append_right _ hr)
    simp only [symbolPointerTranslation_congr hsymbol hindirect]
  | literalPointer =>
    rw [hkind, Macho.translatingReads] at h
    simp only [literalPointerTranslation_congr (view_cStringSections h)]
  | functionStarts address starts =>
    rw [hkind, Macho.translatingReads] at h
    by_cases hstarts : starts = []
    · subst hstarts
      simp only [translateFunctionStarts, List.mapM_nil]
    · rw [if_neg hstarts] at h
      exact translateFunctionStarts_congr (view_symbolTable h) address starts
  | _ => rfl

end Congruence

/-! ## Everything that is read is registered, but for one kind -/

/-- A `FunctionStartsComponent` with at least one function start. -/
def MachoComponent.hasFunctionStarts (c : MachoComponent) : Bool :=
  match c.kind with
  | .functionStarts _ starts => !starts.isEmpty
  | _ => false

theorem hasFunctionStarts_iff {c : MachoComponent} : c.hasFunctionStarts = true ↔
    ∃ address starts, c.kind = .functionStarts address starts ∧ starts ≠ [] := by
  unfold MachoComponent.hasFunctionStarts
  constructor
  · intro h
    split at h
    · rename_i address starts hkind
      rw [Bool.not_eq_true', List.isEmpty_eq_false_iff] at h
      exact ⟨address, starts, hkind, h⟩
    · cases h
  · rintro ⟨address, starts, hkind, hstarts⟩
    rw [hkind, Bool.not_eq_true', List.isEmpty_eq_false_iff]
    exact hstarts

/-- The file has a function start, and a symbol table to look its name up in. -/
def Macho.NamesFunctions (m : Macho) : Prop :=
  m.symbolTableID.isSome = true ∧ ∃ c ∈ m.allComponents, c.hasFunctionStarts = true

instance (m : Macho) : Decidable m.NamesFunctions :=
  inferInstanceAs (Decidable (m.symbolTableID.isSome = true ∧
    ∃ c ∈ m.allComponents, c.hasFunctionStarts = true))

section Registered

variable {m : Macho}

theorem reads_of_some {i : Nat} {c : MachoComponent} (hc : m.allComponents[i]? = some c) :
    m.reads i = m.initializingReads c.kind ++ m.translatingReads c.kind := by
  rw [Macho.reads, hc]

/-- A component that registers with another one comes after it. -/
theorem edge_of_registers (h : m.Registered m.allComponents.zipIdx m.edges) {i p : Nat}
    {c : MachoComponent} {parents : List Nat} (hc : m.allComponents[i]? = some c)
    (hparents : m.registersWith c.kind = .ok parents) (hp : p ∈ parents) : (p, i) ∈ m.edges :=
  (h.mem_iff p i).mpr ⟨c, parents, List.mk_mem_zipIdx_iff_getElem?.mpr hc, hparents, hp⟩

theorem registers_returns (h : m.Registered m.allComponents.zipIdx m.edges) {i : Nat}
    {c : MachoComponent} (hc : m.allComponents[i]? = some c) :
    ∃ parents, m.registersWith c.kind = .ok parents :=
  h.returns c i (List.mk_mem_zipIdx_iff_getElem?.mpr hc)

/-- The symbol table comes before the indirect symbol table. -/
theorem edge_symbolTable (h : m.Registered m.allComponents.zipIdx m.edges) {i j : Nat}
    (hi : m.indirectSymbolTableID = some i) (hj : m.symbolTableID = some j) : (j, i) ∈ m.edges := by
  obtain ⟨c, b, hc, hkind⟩ := indirectSymbolTableID_kind hi
  have hparents : m.registersWith c.kind = .ok [j] := by
    rw [hkind, Macho.registersWith, hj]
    rfl
  exact edge_of_registers h hc hparents (List.mem_singleton_self j)

/-- **What is read comes before**, except for the names of function starts. -/
theorem reads_before (h : m.Registered m.allComponents.zipIdx m.edges) (stack : Nat) {i r : Nat}
    {c : MachoComponent} (hc : m.allComponents[i]? = some c)
    (hno : c.hasFunctionStarts = true → m.symbolTableID = none) (hr : r ∈ m.reads i) :
    (m.plan stack).Before r i := by
  rw [reads_of_some hc] at hr
  obtain ⟨parents, hparents⟩ := registers_returns h hc
  have hedge : ∀ p ∈ parents, (p, i) ∈ (m.plan stack).edges := by
    intro p hp
    rw [plan_edges]
    exact edge_of_registers h hc hparents hp
  cases hkind : c.kind with
  | symbolTable b =>
    rw [hkind] at hr hparents
    obtain ⟨j, hj, rfl⟩ := registersOne_eq_ok.mp hparents
    simp only [Macho.initializingReads, Macho.translatingReads, hj, Option.toList_some,
      List.mem_append, or_self] at hr
    exact .single (hedge r hr)
  | indirectSymbolTable b =>
    rw [hkind] at hr hparents
    obtain ⟨j, hj, rfl⟩ := registersOne_eq_ok.mp hparents
    simp only [Macho.initializingReads, Macho.translatingReads, hj, Option.toList_some,
      List.nil_append] at hr
    exact .single (hedge r hr)
  | symbolPointer b type start =>
    rw [hkind] at hr hparents
    obtain ⟨j, hj, rfl⟩ := registersOne_eq_ok.mp hparents
    simp only [Macho.initializingReads, Macho.translatingReads, hj, Option.toList_some,
      List.nil_append, List.mem_append, Option.mem_toList] at hr
    rcases hr with hr | hr
    · exact .single (hedge r hr)
    · exact .tail (.single (edge_symbolTable h hj hr)) (hedge j (List.mem_singleton_self j))
  | literalPointer b =>
    rw [hkind] at hr hparents
    simp only [Macho.initializingReads, Macho.translatingReads, List.nil_append] at hr
    rw [Macho.registersWith, Except.ok.injEq] at hparents
    subst hparents
    exact .single (hedge r hr)
  | functionStarts address starts =>
    rw [hkind] at hr
    by_cases hstarts : starts = []
    · simp only [Macho.initializingReads, Macho.translatingReads, if_pos hstarts] at hr
      exact absurd hr List.not_mem_nil
    · simp only [Macho.initializingReads, Macho.translatingReads, if_neg hstarts,
        List.nil_append, hno (hasFunctionStarts_iff.mpr ⟨address, starts, hkind, hstarts⟩)] at hr
      exact absurd hr List.not_mem_nil
  | _ =>
    rw [hkind] at hr
    exact absurd hr List.not_mem_nil

theorem not_mem_reads {i r : Nat} (hc : m.allComponents[i]? = none) : r ∉ m.reads i := by
  rw [Macho.reads, hc]
  exact List.not_mem_nil

/-- The plan of such a file reads only what comes before. -/
theorem plan_readsOnly (h : m.Registered m.allComponents.zipIdx m.edges)
    (hno : ¬ m.NamesFunctions) (stack : Nat) : (m.plan stack).ReadsOnly m.reads where
  before i r hr := by
    cases hc : m.allComponents[i]? with
    | none => exact absurd hr (not_mem_reads hc)
    | some c =>
      refine reads_before h stack hc ?_ hr
      intro hshown
      by_contra hsymbols
      exact hno ⟨Option.isSome_iff_ne_none.mpr hsymbols, c, List.mem_of_getElem? hc, hshown⟩
  prepare i st st' heq := by
    simp only [Macho.plan]
    cases hc : m.allComponents[i]? with
    | none => rw [Option.bind_none, Option.bind_none]
    | some c =>
      rw [reads_of_some hc] at heq
      rw [Option.bind_some, Option.bind_some,
        runInitializing_congr stack fun r hr => heq r (List.mem_append_left _ hr)]
  translate i st st' hself heq := by
    simp only [Macho.plan]
    cases hc : m.allComponents[i]? with
    | none => rw [Option.bind_none, Option.bind_none]
    | some c =>
      rw [reads_of_some hc] at heq
      rw [Option.bind_some, Option.bind_some, hself,
        runTranslating_congr _ fun r hr => heq r (List.mem_append_right _ hr)]

/-! ## The one that is not -/

/-- The parents of a component are what it registers with. -/
theorem registers_of_edge (h : m.Registered m.allComponents.zipIdx m.edges) {i p : Nat}
    {c : MachoComponent} {parents : List Nat} (hc : m.allComponents[i]? = some c)
    (hparents : m.registersWith c.kind = .ok parents) (hedge : (p, i) ∈ m.edges) : p ∈ parents := by
  obtain ⟨x, ps, hx, hps, hp⟩ := (h.mem_iff p i).mp hedge
  rw [List.mk_mem_zipIdx_iff_getElem?, hc] at hx
  cases hx
  rw [hparents, Except.ok.injEq] at hps
  exact hps ▸ hp

theorem stringTable_prepares {t : Nat} (ht : m.stringTableID = some t) (stack : Nat)
    (states : Nat → ComponentState) : ∃ v, (m.plan stack).prepare states t = some v := by
  obtain ⟨c, hc, hkind⟩ := stringTableID_kind ht
  obtain ⟨strings, hstrings⟩ := cStrings_total c.data
  simp only [Macho.plan, hc, Option.bind_some, MachoComponent.runInitializing, hkind, hstrings,
    ok_bind]
  exact ⟨_, rfl⟩

theorem functionStarts_prepares {i : Nat} {c : MachoComponent} {address : UInt64}
    {starts : List (Field FunctionStart)} (hc : m.allComponents[i]? = some c)
    (hkind : c.kind = .functionStarts address starts) (stack : Nat)
    (states : Nat → ComponentState) : ∃ v, (m.plan stack).prepare states i = some v := by
  simp only [Macho.plan, hc, Option.bind_some, MachoComponent.runInitializing, hkind]
  exact ⟨_, rfl⟩

/-- **Function names can be looked up too early**: once the string table is initialized, nothing
keeps the function starts from being translated before the symbol table is filled in. -/
theorem functionStarts_early (h : m.Registered m.allComponents.zipIdx m.edges)
    (hnames : m.NamesFunctions) (stack : Nat) :
    ∃ s i c r, (m.plan stack).Reachable s ∧ m.allComponents[i]? = some c ∧
      (i, .translating) ∈ s.jobs ∧ r ∈ m.translatingReads c.kind ∧
      (s.cells r).prepared = false := by
  obtain ⟨hsymbols, c, hmem, hshown⟩ := hnames
  obtain ⟨address, starts, hkind, hstarts⟩ := hasFunctionStarts_iff.mp hshown
  obtain ⟨r, hr⟩ := Option.isSome_iff_exists.mp hsymbols
  obtain ⟨i, hi⟩ := List.getElem?_of_mem hmem
  obtain ⟨parents, hparents⟩ := registers_returns h hi
  have hregisters := hparents
  rw [hkind] at hregisters
  obtain ⟨t, ht, rfl⟩ := registersOne_eq_ok.mp hregisters
  -- the three components are different ones
  obtain ⟨ct, hct, hkindt⟩ := stringTableID_kind ht
  obtain ⟨cr, b, hcr, hkindr⟩ := symbolTableID_kind hr
  have hit : i ≠ t := by
    rintro rfl
    rw [hi] at hct
    cases hct
    rw [hkind] at hkindt
    cases hkindt
  have hrt : r ≠ t := by
    rintro rfl
    rw [hcr] at hct
    cases hct
    rw [hkindr] at hkindt
    cases hkindt
  have hri : r ≠ i := by
    rintro rfl
    rw [hcr] at hi
    cases hi
    rw [hkindr] at hkind
    cases hkind
  have hwf := plan_wf h stack
  obtain ⟨s, hs, hempty, hprepared, _⟩ := Plan.drain (P := m.plan stack) (m.plan stack).start
  have hfresh : ∀ d, (s.cells d).prepared = false := fun d => (hprepared d).trans rfl
  obtain ⟨s', hs', hempty', hapart', hjob'⟩ := Plan.Reachable.advance hwf hs hempty (c := t)
    (mem_plan_components.mpr (List.getElem?_eq_some_iff.mp hct).1) (hfresh t) (by
      intro p hp
      have hnone : m.registersWith ct.kind = .ok [] := by rw [hkindt]; rfl
      exact absurd (registers_of_edge h hct hnone hp) List.not_mem_nil) (stringTable_prepares ht stack)
  obtain ⟨u, hu, _, hapart, hjob⟩ := Plan.Reachable.advance hwf hs' hempty' (c := i)
    (mem_plan_components.mpr (List.getElem?_eq_some_iff.mp hi).1)
    (by rw [hapart'.prepared i hit, hfresh]) (by
      intro p hp
      have hpt := registers_of_edge h hi hparents hp
      rw [List.mem_singleton] at hpt
      exact hpt ▸ hjob') (functionStarts_prepares hi hkind stack)
  refine ⟨u, i, c, r, hu, hi, hjob, ?_, ?_⟩
  · rw [hkind, Macho.translatingReads, if_neg hstarts, hr]
    exact List.mem_singleton_self r
  · rw [hapart.prepared r hri, hapart'.prepared r hrt, hfresh]

end Registered

/-- Any two complete runs end with the same groups, and what a component reads was filled in
before it looks. -/
structure Macho.ScheduleIndependent (m : Macho) (stack : Nat) : Prop where
  groups : ∀ s s', (m.plan stack).Reachable s → (m.plan stack).Reachable s' → s.Quiescent →
    s'.Quiescent → ∀ i < m.allComponents.length, (s.cells i).groups = (s'.cells i).groups
  initializing : ∀ s, (m.plan stack).Reachable s → ∀ i c, m.allComponents[i]? = some c →
    (i, .preparing) ∈ s.jobs → ∀ r ∈ m.initializingReads c.kind, (s.cells r).prepared = true
  translating : ∀ s, (m.plan stack).Reachable s → ∀ i c, m.allComponents[i]? = some c →
    (i, .translating) ∈ s.jobs → ∀ r ∈ m.translatingReads c.kind, (s.cells r).prepared = true

/-- **The order of the jobs shows only in function names.** -/
theorem scheduleIndependent_iff {machoData : Data} {name : String} {header : MachoHeader}
    {m : Macho} (h : Macho.init machoData name header = .ok m) (stack : Nat) :
    m.ScheduleIndependent stack ↔ ¬ m.NamesFunctions := by
  have hregistered := init_registered h
  have hwf := plan_wf hregistered stack
  constructor
  · intro hindependent hnames
    obtain ⟨s, i, c, r, hs, hc, hjob, hr, hunprepared⟩ :=
      functionStarts_early hregistered hnames stack
    rw [hindependent.translating s hs i c hc hjob r hr] at hunprepared
    cases hunprepared
  · intro hno
    have hreads := plan_readsOnly hregistered hno stack
    refine ⟨?_, ?_, ?_⟩
    · intro s s' hs hs' hq hq' i hi
      exact hs.groups_eq hwf hreads hs' (hs.quiescent_done hwf hq (mem_plan_components.mpr hi))
        (hs'.quiescent_done hwf hq' (mem_plan_components.mpr hi))
    · intro s hs i c hc hjob r hr
      refine hs.reads_prepared hwf hreads hjob ?_
      rw [reads_of_some hc]
      exact List.mem_append_left _ hr
    · intro s hs i c hc hjob r hr
      refine hs.reads_prepared hwf hreads hjob ?_
      rw [reads_of_some hc]
      exact List.mem_append_right _ hr

/-- `functionFile` with an empty list of function starts. -/
def namelessFile : Data := ⟨0, functionFile.bytes.take 220 ++ word 0 ++ functionFile.bytes.drop 224⟩

theorem scheduleIndependent_namelessFile :
    ∃ m, Macho.init namelessFile "f" functionFileHeader = .ok m ∧ m.ScheduleIndependent 0 := by
  have hinit : (Macho.init namelessFile "f" functionFileHeader).toOption.map
      (fun m => decide m.NamesFunctions) = some false := by
    decide +kernel
  obtain ⟨m, hm, hnames⟩ := Option.map_eq_some_iff.mp hinit
  have hok := toOption_eq_some.mp hm
  exact ⟨m, hok, (scheduleIndependent_iff hok 0).mpr (of_decide_eq_false hnames)⟩

/-- All steps of `functionFile`: the string table first, then the symbol table, then the function
starts. -/
def symbolTableFirst : List Plan.Choice :=
  List.replicate 8 Plan.Choice.main ++ List.replicate 38 (Plan.Choice.job 0) ++
    List.replicate 8 Plan.Choice.main ++ List.replicate 6 (Plan.Choice.job 1) ++
    List.replicate 6 (Plan.Choice.job 0) ++ List.replicate 2 Plan.Choice.main

/-- Whether the chosen steps are all there are, and the names shown for the function starts. -/
def functionNames (choices : List Plan.Choice) :
    Option ((Nat × Bool) × Option (List (List (Option String)))) :=
  (functionFileRun choices).map fun r =>
    ((r.1.allComponents.length, r.2.queue.isEmpty && r.2.jobs.isEmpty),
      (r.2.cells 5).groups.map fun gs => gs.map fun g => g.map GeneralTranslation.extraHumanReadable)

/-- **Two complete runs that show different names**: none when the function starts are translated
first, `f` when the symbol table is filled in first. -/
theorem functionFile_schedule_dependent :
    ∃ m, Macho.init functionFile "f" functionFileHeader = .ok m ∧ ¬ m.ScheduleIndependent 0 := by
  have hearly : functionNames functionStartsFirst = some ((8, true), some [[some ""]]) := by
    decide +kernel
  have hlate : functionNames symbolTableFirst = some ((8, true), some [[some "f\x00"]]) := by
    decide +kernel
  obtain ⟨⟨m, s⟩, hms, hs⟩ := Option.map_eq_some_iff.mp hearly
  obtain ⟨⟨m', s'⟩, hms', hs'⟩ := Option.map_eq_some_iff.mp hlate
  obtain ⟨hm, hreach⟩ := functionFileRun_eq_some hms
  obtain ⟨hm', hreach'⟩ := functionFileRun_eq_some hms'
  rw [hm, Except.ok.injEq] at hm'
  subst hm'
  simp only [Prod.mk.injEq, Bool.and_eq_true, List.isEmpty_iff] at hs hs'
  obtain ⟨⟨hlength, hquiescent⟩, hnames⟩ := hs
  obtain ⟨⟨_, hquiescent'⟩, hnames'⟩ := hs'
  refine ⟨m, hm, fun hindependent => ?_⟩
  rw [hindependent.groups s s' hreach hreach' hquiescent hquiescent' 5 (by omega), hnames'] at hnames
  exact absurd hnames (by decide)

end Mocha
