import Mathlib.Data.Nat.Bitwise
import Mocha.Components.CStringPieces
import Mocha.Macho.Ranges
import Mocha.Macho.Reads

/-!
# The names of symbol pointers

A symbol pointer is shown with a name that is found along four tables: `reserved1` of its section says
where the section's entries of the indirect symbol table start, an entry is an index into the symbol
table, and a symbol has an offset into the string table. Two load commands locate the tables, a job
fills in each of them, and the section looks at them when it is translated.

* `TablesFilled`: what the section sees of the tables, once they are filled in.
* `symbolPointerName_eq`: the chain of lookups on such a view, in bytes of the tables.
* **`symbolPointers_resolved`**: whatever the order of the jobs, every pointer is shown with the word at
  its place in the file and the name its entry stands for.
-/

namespace Mocha

open Lib Data DataShifter

/-! ## The tables, once they are filled in -/

theorem and_pow_ne_zero (e mask : UInt32) (i : Nat) (hmask : mask.toNat = 2 ^ i) :
    (e &&& mask != 0) = e.toNat.testBit i := by
  have hand : (e &&& mask).toNat = (e.toNat.testBit i).toNat * 2 ^ i := by
    rw [UInt32.toNat_and, hmask]
    exact Nat.and_two_pow e.toNat i
  rw [bne, ← Bool.not_inj_iff, Bool.not_not, Bool.eq_iff_iff, beq_iff_eq, ← UInt32.toNat_inj, hand]
  cases e.toNat.testBit i <;> simp

/-- What a component sees of the tables in the given data, once they are filled in. -/
structure TablesFilled (is64Bit : Bool) (strings symbols indirects : Data) (v : MachoView) : Prop where
  indirectSymbols : ∃ w models, initModels IndirectSymbolTableEntry is64Bit w indirects = .ok models ∧
    v.indirectSymbolTable = some models
  symbolTable : ∃ w c table, CStrings.runInitializing strings = .ok c ∧ w.stringTable = some c ∧
    SymbolTable.runInitializing is64Bit w symbols = .ok table ∧ v.symbolTable = some table

/-- The entry is marked as local or absolute: it stands for no symbol. -/
def unnamedEntry (e : UInt32) : Bool := e.toNat.testBit 31 || e.toNat.testBit 30

section Filled

variable {is64Bit : Bool} {strings symbols indirects : Data} {v : MachoView}

/-- **The first lookup**: entry `n` of the indirect symbol table is its word `n`. -/
theorem symbolPointerName_eq (h : TablesFilled is64Bit strings symbols indirects v) {n : Nat}
    (hn : (n + 1) * 4 ≤ indirects.count) :
    symbolPointerName v n =
      if unnamedEntry (indirects.uint32At (n * 4)).value then
        .ok (some ("Local Symbol. Absolute: " ++
          toString ((indirects.uint32At (n * 4)).value.toNat.testBit 30)))
      else v.symbolName (indirects.uint32At (n * 4)).value.toNat := by
  obtain ⟨w, models, hmodels, hv⟩ := h.indirectSymbols
  have hsize : modelSize IndirectSymbolTableEntry is64Bit = 4 := by cases is64Bit <;> rfl
  obtain ⟨entry, hentry, hinit⟩ := initModels_getElem? (i := n) hmodels (by omega) (by rwa [hsize])
  rw [hsize] at hinit
  obtain rfl := indirectSymbol_init (by omega) hinit
  unfold symbolPointerName findIndirectSymbol
  simp only [hv, hentry, guardLet, ok_bind, pure_eq_ok, and_pow_ne_zero _ 0x80000000 31 rfl,
    and_pow_ne_zero _ 0x40000000 30 rfl]
  rfl

/-- **The second and the third lookup**: symbol `e` is decoded from record `e` of the symbol table, with
the name it has in the string table. -/
theorem symbolName_eq (h : TablesFilled is64Bit strings symbols indirects v) {e : Nat}
    (he : (e + 1) * modelSize SymbolTableEntry is64Bit ≤ symbols.count) :
    ∃ w c entry, CStrings.runInitializing strings = .ok c ∧ w.stringTable = some c ∧
      SymbolTableEntry.init is64Bit w (symbols.window (e * modelSize SymbolTableEntry is64Bit)
        (modelSize SymbolTableEntry is64Bit)) = .ok entry ∧
      v.symbolName e = .ok (some entry.symbolName) := by
  obtain ⟨w, c, table, hc, hw, htable, hv⟩ := h.symbolTable
  unfold SymbolTable.runInitializing at htable
  rw [bind_eq_ok] at htable
  obtain ⟨models, hmodels, htable⟩ := htable
  cases htable
  have hpos : 0 < modelSize SymbolTableEntry is64Bit := by cases is64Bit <;> decide
  obtain ⟨entry, hentry, hinit⟩ := initModels_getElem? hmodels hpos he
  refine ⟨w, c, entry, hc, hw, hinit, ?_⟩
  unfold MachoView.symbolName SymbolTable.findSymbolAt
  rw [hv]
  simp only [SymbolTable.ofModels, hentry]
  rfl

end Filled

/-! ## Where the tables are -/

section Tables

variable {machoData : Data} {header : MachoHeader} {m : Macho}

/-- No other component is a table. -/
theorem table_of_mem (h : m.Built machoData header) {c : MachoComponent} (hc : c ∈ m.allComponents)
    (htable : c.kind.isTable = true) :
    m.symbolTable = some c ∨ m.indirectSymbolTable = some c ∨ m.stringTable = some c := by
  have hother := ne_false_of_eq_true htable
  simp only [Macho.allComponents, List.mem_append, Option.mem_toList, or_assoc] at hc
  rcases hc with hc | hc | hc | hc | hc | hc | hc
  · rw [List.mem_singleton.mp hc] at htable
    cases htable
  · obtain ⟨command, -, rfl⟩ := List.mem_map.mp hc
    cases htable
  · obtain ⟨s, -, hs⟩ := forall₂_exists_left h.sections hc
    exact absurd (createComponent_eq_ok hs).2.1 hother
  · obtain ⟨tables, htables, hflat⟩ := h.relocations
    rw [hflat, List.reduceOption_mem_iff] at hc
    obtain ⟨s, -, hs⟩ := forall₂_exists_left htables hc
    obtain ⟨infos, -, hkind⟩ := relocationComponent_eq_ok hs
    rw [hkind] at htable
    cases htable
  · obtain ⟨t, -, ht⟩ := forall₂_exists_left h.linkedITs hc
    exact absurd (linkedITComponent_eq_ok ht).2.2 hother
  · obtain ⟨blocks, hblocks, hflat⟩ := h.dyldInfos
    rw [hflat, List.mem_flatten] at hc
    obtain ⟨cs, hcs, hc⟩ := hc
    obtain ⟨t, -, ht⟩ := forall₂_exists_left hblocks hcs
    exact absurd (dyldInfoComponents_isTable ht c hc) hother
  · exact hc

/-- The position of section `k` in `allComponents`. -/
def Macho.sectionID (m : Macho) (k : Nat) : Nat := 1 + m.loadCommands.length + k

theorem allComponents_sectionID {k : Nat} {c : MachoComponent} (hc : m.sectionComponents[k]? = some c) :
    m.allComponents[m.sectionID k]? = some c := by
  have hlt := (List.getElem?_eq_some_iff.mp hc).1
  have hsplit : m.allComponents = ([m.machoHeader.component] ++
      m.loadCommands.map LoadCommand.component) ++ (m.sectionComponents ++ (m.relocationTables ++
        m.linkedITComponents ++ m.dyldInfoComponents ++ m.symbolTable.toList ++
        m.indirectSymbolTable.toList ++ m.stringTable.toList)) := by
    simp only [Macho.allComponents, List.append_assoc]
  have hfront : ([m.machoHeader.component] ++ m.loadCommands.map LoadCommand.component).length =
      1 + m.loadCommands.length := by
    rw [List.length_append, List.length_singleton, List.length_map]
  unfold Macho.sectionID
  rw [hsplit, List.getElem?_append_right (by omega), hfront, Nat.add_sub_cancel_left,
    List.getElem?_append_left hlt, hc]

/-- The component of the string table a command locates. -/
def LCSymbolTable.stringComponent (t : LCSymbolTable) (machoData : Data) : MachoComponent :=
  ⟨"String Table", none, machoData.window t.stringPlace.1 t.stringPlace.2, .stringTable⟩

/-- The component of the symbol table a command locates. -/
def LCSymbolTable.symbolComponent (t : LCSymbolTable) (machoData : Data) (is64Bit : Bool) :
    MachoComponent :=
  ⟨"Symbol Table", none, machoData.window (t.symbolPlace is64Bit).1 (t.symbolPlace is64Bit).2,
    .symbolTable is64Bit⟩

/-- The component of the indirect symbol table a command locates. -/
def LCDynamicSymbolTable.indirectComponent (t : LCDynamicSymbolTable) (machoData : Data)
    (is64Bit : Bool) : MachoComponent :=
  ⟨"Indirect Symbol Table", none, machoData.window t.indirectsymoff.value.toNat
    (4 * t.nindirectsyms.value.toNat), .indirectSymbolTable is64Bit⟩

/-- The tables of a file are the ones its commands locate; the indirect symbol table may be empty. -/
structure Macho.TablesOf (machoData : Data) (is64Bit : Bool) (symtab : LCSymbolTable)
    (dysymtab : LCDynamicSymbolTable) (m : Macho) : Prop where
  symbols : m.symbolTable = some (symtab.symbolComponent machoData is64Bit)
  symbolsFit : (symtab.symbolPlace is64Bit).1 + (symtab.symbolPlace is64Bit).2 ≤ machoData.count
  strings : m.stringTable = some (symtab.stringComponent machoData)
  indirects : m.indirectSymbolTable = none ∨
    (m.indirectSymbolTable = some (dysymtab.indirectComponent machoData is64Bit) ∧
      dysymtab.indirectsymoff.value.toNat + 4 * dysymtab.nindirectsyms.value.toNat ≤ machoData.count)

theorem toList_eq_singleton {α : Type} {o : Option α} {a : α} (h : o.toList = [a]) : o = some a := by
  cases o with
  | none => cases h
  | some b =>
    cases h
    rfl

theorem tablesOf_built (h : m.Built machoData header) {symtab : LCSymbolTable}
    {dysymtab : LCDynamicSymbolTable}
    (hsymtab : symbolTableLoadCommand m.loadCommands = some symtab)
    (hdysymtab : indirectSymbolTableLoadCommand m.loadCommands = some dysymtab) :
    m.TablesOf machoData header.is64Bit symtab dysymtab := by
  have hsymbols := h.symbols
  have hstrings := h.strings
  obtain ⟨table, hindirects, hjoin⟩ := h.indirects
  rw [hsymtab, Option.toList_some, List.forall₂_cons_left_iff] at hsymbols hstrings
  rw [hdysymtab, Option.toList_some, List.forall₂_cons_left_iff] at hindirects
  obtain ⟨c, cs, hc, hcs, hsymbols⟩ := hsymbols
  obtain ⟨d, ds, hd, hds, hstrings⟩ := hstrings
  obtain ⟨x, xs, hx, hxs, hindirects⟩ := hindirects
  rw [List.forall₂_nil_left_iff] at hcs hds hxs
  subst hcs hds hxs
  obtain ⟨hfit, rfl⟩ := symbolTable_eq_ok hc
  obtain ⟨-, rfl⟩ := stringTable_eq_ok hd
  refine ⟨toList_eq_singleton hsymbols, hfit, toList_eq_singleton hstrings, ?_⟩
  rw [hjoin, toList_eq_singleton hindirects, Option.join_some]
  rcases indirectSymbolTable_eq_ok hx with ⟨-, rfl⟩ | ⟨offset, size, hplace, hfits, rfl⟩
  · exact .inl rfl
  · unfold LCDynamicSymbolTable.indirectPlace at hplace
    split at hplace
    · cases hplace
    · cases hplace
      exact .inr ⟨rfl, hfits⟩

/-- The three tables are told apart by their kinds. -/
theorem Macho.TablesOf.table_cases {symtab : LCSymbolTable} {dysymtab : LCDynamicSymbolTable}
    (htables : m.TablesOf machoData header.is64Bit symtab dysymtab) (h : m.Built machoData header)
    {c : MachoComponent} (hc : c ∈ m.allComponents) (htable : c.kind.isTable = true) :
    c = symtab.symbolComponent machoData header.is64Bit ∨
      (c = dysymtab.indirectComponent machoData header.is64Bit ∧
        dysymtab.indirectsymoff.value.toNat + 4 * dysymtab.nindirectsyms.value.toNat ≤
          machoData.count) ∨
      c = symtab.stringComponent machoData := by
  rcases table_of_mem h hc htable with hc | hc | hc
  · rw [htables.symbols, Option.some_inj] at hc
    exact .inl hc.symm
  · rcases htables.indirects with hnone | ⟨hsome, hfits⟩
    · rw [hnone] at hc
      cases hc
    · rw [hsome, Option.some_inj] at hc
      exact .inr (.inl ⟨hc.symm, hfits⟩)
  · rw [htables.strings, Option.some_inj] at hc
    exact .inr (.inr hc.symm)

/-- The components at the positions of the tables. -/
structure Macho.TablesAt (machoData : Data) (is64Bit : Bool) (symtab : LCSymbolTable)
    (dysymtab : LCDynamicSymbolTable) (m : Macho) (t j i : Nat) : Prop where
  stringTableID : m.stringTableID = some t
  symbolTableID : m.symbolTableID = some j
  indirectSymbolTableID : m.indirectSymbolTableID = some i
  strings : m.allComponents[t]? = some (symtab.stringComponent machoData)
  symbols : m.allComponents[j]? = some (symtab.symbolComponent machoData is64Bit)
  indirects : m.allComponents[i]? = some (dysymtab.indirectComponent machoData is64Bit)

/-- A section of symbol pointers is accepted only in a file with the three tables. -/
theorem tablesAt_of_symbolPointer (h : m.Built machoData header)
    (hregistered : m.Registered m.allComponents.zipIdx m.edges) {symtab : LCSymbolTable}
    {dysymtab : LCDynamicSymbolTable} (htables : m.TablesOf machoData header.is64Bit symtab dysymtab)
    {n : Nat} {c : MachoComponent} (hc : m.allComponents[n]? = some c) {is64Bit : Bool}
    {type : SectionType} {start : Nat} (hkind : c.kind = .symbolPointer is64Bit type start) :
    ∃ t j i, m.TablesAt machoData header.is64Bit symtab dysymtab t j i ∧
      dysymtab.indirectsymoff.value.toNat + 4 * dysymtab.nindirectsyms.value.toNat ≤
        machoData.count := by
  obtain ⟨parents, hparents⟩ := registers_returns hregistered hc
  rw [hkind] at hparents
  obtain ⟨i, hi, rfl⟩ := registersOne_eq_ok.mp hparents
  obtain ⟨ci, bi, hci, hkindi⟩ := indirectSymbolTableID_kind hi
  obtain ⟨parents, hparents⟩ := registers_returns hregistered hci
  rw [hkindi] at hparents
  obtain ⟨j, hj, rfl⟩ := registersOne_eq_ok.mp hparents
  obtain ⟨cj, bj, hcj, hkindj⟩ := symbolTableID_kind hj
  obtain ⟨parents, hparents⟩ := registers_returns hregistered hcj
  rw [hkindj] at hparents
  obtain ⟨t, ht, rfl⟩ := registersOne_eq_ok.mp hparents
  obtain ⟨ct, hct, hkindt⟩ := stringTableID_kind ht
  have hstrings : ct = symtab.stringComponent machoData := by
    rcases htables.table_cases h (List.mem_of_getElem? hct) (by rw [hkindt]; rfl) with
      rfl | ⟨rfl, -⟩ | rfl
    · cases hkindt
    · cases hkindt
    · rfl
  have hsymbols : cj = symtab.symbolComponent machoData header.is64Bit := by
    rcases htables.table_cases h (List.mem_of_getElem? hcj) (by rw [hkindj]; rfl) with
      rfl | ⟨rfl, -⟩ | rfl
    · rfl
    · cases hkindj
    · cases hkindj
  rcases htables.table_cases h (List.mem_of_getElem? hci) (by rw [hkindi]; rfl) with
    rfl | ⟨rfl, hfits⟩ | rfl
  · cases hkindi
  · exact ⟨t, j, i, ⟨ht, hj, hi, hstrings ▸ hct, hsymbols ▸ hcj, hci⟩, hfits⟩
  · cases hkindi

end Tables

/-! ## What the jobs leave in them -/

/-- The components whose states a component reads, without the names of function starts, which may be
looked up too early. -/
def Macho.orderedReads (m : Macho) (i : Nat) : List Nat :=
  match m.allComponents[i]? with
  | some c =>
    if c.hasFunctionStarts then [] else m.initializingReads c.kind ++ m.translatingReads c.kind
  | none => []

section Settled

variable {m : Macho} {machoData : Data} {is64Bit : Bool} {symtab : LCSymbolTable}
  {dysymtab : LCDynamicSymbolTable} {t j i stack : Nat}

theorem orderedReads_eq {n : Nat} {c : MachoComponent} (hc : m.allComponents[n]? = some c)
    (hno : c.hasFunctionStarts = false) :
    m.orderedReads n = m.initializingReads c.kind ++ m.translatingReads c.kind := by
  simp only [Macho.orderedReads, hc, hno, if_neg Bool.false_ne_true]

theorem orderedReads_before (h : m.Registered m.allComponents.zipIdx m.edges) (stack c : Nat) :
    ∀ r ∈ m.orderedReads c, (m.plan stack).Before r c := by
  intro r hr
  unfold Macho.orderedReads at hr
  split at hr
  · rename_i x hx
    split at hr
    · exact absurd hr List.not_mem_nil
    · rename_i hno
      refine reads_before h stack hx (fun hshown => absurd hshown hno) ?_
      rwa [reads_of_some hx]
  · exact absurd hr List.not_mem_nil

theorem settled_strings (hat : m.TablesAt machoData is64Bit symtab dysymtab t j i) {v : ComponentState}
    (h : Settled (m.plan stack) m.orderedReads t v) :
    CStrings.runInitializing (symtab.stringComponent machoData).data = .ok v.cStrings := by
  cases h with
  | mk st _ hv =>
    have hrun := (plan_prepare_eq_some hat.strings).mp hv
    unfold MachoComponent.runInitializing at hrun
    simp only [LCSymbolTable.stringComponent, bind_eq_ok] at hrun
    obtain ⟨c, hc, hrun⟩ := hrun
    cases hrun
    exact hc

theorem view_stringTable_eq (hat : m.TablesAt machoData is64Bit symtab dysymtab t j i)
    (states : Nat → ComponentState) : (m.view states).stringTable = some (states t).cStrings := by
  simp only [Macho.view, hat.stringTableID, Option.map_some]

/-- The symbol table reads the string table. -/
theorem mem_orderedReads_symbols (hat : m.TablesAt machoData is64Bit symtab dysymtab t j i) :
    t ∈ m.orderedReads j := by
  rw [orderedReads_eq hat.symbols rfl]
  simp [Macho.initializingReads, LCSymbolTable.symbolComponent, hat.stringTableID]

theorem settled_symbols (hat : m.TablesAt machoData is64Bit symtab dysymtab t j i) {v : ComponentState}
    (h : Settled (m.plan stack) m.orderedReads j v) :
    ∃ w c, CStrings.runInitializing (symtab.stringComponent machoData).data = .ok c ∧
      w.stringTable = some c ∧
      SymbolTable.runInitializing is64Bit w (symtab.symbolComponent machoData is64Bit).data =
        .ok v.symbolTable := by
  cases h with
  | mk st hreads hv =>
    have hstrings := hreads t (mem_orderedReads_symbols hat)
    have hrun := (plan_prepare_eq_some hat.symbols).mp hv
    unfold MachoComponent.runInitializing at hrun
    simp only [LCSymbolTable.symbolComponent, bind_eq_ok] at hrun
    obtain ⟨table, htable, hrun⟩ := hrun
    cases hrun
    exact ⟨m.view st, _, settled_strings hat hstrings, view_stringTable_eq hat st, htable⟩

theorem settled_indirects (hat : m.TablesAt machoData is64Bit symtab dysymtab t j i)
    {v : ComponentState} (h : Settled (m.plan stack) m.orderedReads i v) :
    ∃ w, initModels IndirectSymbolTableEntry is64Bit w
      (dysymtab.indirectComponent machoData is64Bit).data = .ok v.indirectSymbols := by
  cases h with
  | mk st _ hv =>
    have hrun := (plan_prepare_eq_some hat.indirects).mp hv
    unfold MachoComponent.runInitializing at hrun
    simp only [LCDynamicSymbolTable.indirectComponent, bind_eq_ok] at hrun
    obtain ⟨models, hmodels, hrun⟩ := hrun
    cases hrun
    exact ⟨m.view st, hmodels⟩

/-- A component that sees settled tables sees the ones of the file. -/
theorem tablesFilled_view (hat : m.TablesAt machoData is64Bit symtab dysymtab t j i)
    {states : Nat → ComponentState} (hj : Settled (m.plan stack) m.orderedReads j (states j))
    (hi : Settled (m.plan stack) m.orderedReads i (states i)) :
    TablesFilled is64Bit (symtab.stringComponent machoData).data
      (symtab.symbolComponent machoData is64Bit).data
      (dysymtab.indirectComponent machoData is64Bit).data (m.view states) := by
  obtain ⟨w, c, hc, hw, htable⟩ := settled_symbols hat hj
  obtain ⟨w', hmodels⟩ := settled_indirects hat hi
  refine ⟨⟨w', _, hmodels, ?_⟩, ⟨w, c, _, hc, hw, htable, ?_⟩⟩
  · simp only [Macho.view, hat.indirectSymbolTableID, Option.map_some]
  · simp only [Macho.view, hat.symbolTableID, Option.map_some]

end Settled

/-! ## The pointers -/

section Pointers

variable (machoData : Data) (is64Bit : Bool) (symtab : LCSymbolTable) (dysymtab : LCDynamicSymbolTable)
  (sect : SectionHeader)

/-- Pointer `i` of a section. -/
def pointerAt (i : Nat) : Field UInt64 :=
  addressAt is64Bit machoData (sect.offset.value.toNat + i * addressSize is64Bit)

/-- The entry of the indirect symbol table for pointer `i` of a section. -/
def indirectEntry (i : Nat) : UInt32 :=
  (machoData.uint32At
    (dysymtab.indirectsymoff.value.toNat + 4 * (sect.reserved1.value.toNat + i))).value

/-- The bytes of symbol `e`. -/
def symbolBytes (e : Nat) : Data :=
  let entrySize := if is64Bit then 16 else 12
  machoData.window (symtab.symbolTableOffset.value.toNat + e * entrySize) entrySize

/-- The bytes of the string table. -/
def stringBytes : Data :=
  machoData.window symtab.stringTableOffset.value.toNat symtab.sizeOfStringTable.value.toNat

/-- The translation shows pointer `i` with what its entry stands for: nothing, for an entry that is
marked, and otherwise the name of the symbol that is decoded from the bytes of that symbol. -/
structure ShowsPointer (v : MachoView) (i : Nat) (t : GeneralTranslation) : Prop where
  value : t.humanReadable = hex (pointerAt machoData is64Bit sect i).value.toNat
  unnamed : unnamedEntry (indirectEntry machoData dysymtab sect i) = true →
    t.extraHumanReadable = some ("Local Symbol. Absolute: " ++
      toString ((indirectEntry machoData dysymtab sect i).toNat.testBit 30))
  named : unnamedEntry (indirectEntry machoData dysymtab sect i) = false →
    (indirectEntry machoData dysymtab sect i).toNat < symtab.numberOfSymbolTableEntries.value.toNat →
    ∃ entry, SymbolTableEntry.init is64Bit v (symbolBytes machoData is64Bit symtab
        (indirectEntry machoData dysymtab sect i).toNat) = .ok entry ∧
      NamedBy (stringBytes machoData symtab) entry.symbolType.value
        entry.indexInStringTable.value.toNat entry.symbolName ∧
      t.extraHumanReadable = some entry.symbolName

end Pointers

/-- The tables that the commands of a file locate are in it, and `v` sees them filled in. -/
structure TablesIn (machoData : Data) (is64Bit : Bool) (symtab : LCSymbolTable)
    (dysymtab : LCDynamicSymbolTable) (v : MachoView) : Prop where
  filled : TablesFilled is64Bit (symtab.stringComponent machoData).data
    (symtab.symbolComponent machoData is64Bit).data
    (dysymtab.indirectComponent machoData is64Bit).data v
  symbolsFit : (symtab.symbolPlace is64Bit).1 + (symtab.symbolPlace is64Bit).2 ≤ machoData.count
  indirectsFit : dysymtab.indirectsymoff.value.toNat + 4 * dysymtab.nindirectsyms.value.toNat ≤
    machoData.count

section Lookups

variable {machoData : Data} {is64Bit : Bool} {symtab : LCSymbolTable} {dysymtab : LCDynamicSymbolTable}
  {sect : SectionHeader} {v : MachoView} {i : Nat}

theorem symbolPointerName_at (h : TablesIn machoData is64Bit symtab dysymtab v)
    (hi : sect.reserved1.value.toNat + i < dysymtab.nindirectsyms.value.toNat) :
    symbolPointerName v (i + sect.reserved1.value.toNat) =
      if unnamedEntry (indirectEntry machoData dysymtab sect i) then
        .ok (some ("Local Symbol. Absolute: " ++
          toString ((indirectEntry machoData dysymtab sect i).toNat.testBit 30)))
      else v.symbolName (indirectEntry machoData dysymtab sect i).toNat := by
  have hword : (dysymtab.indirectComponent machoData is64Bit).data.uint32At
      ((i + sect.reserved1.value.toNat) * 4) = machoData.uint32At
        (dysymtab.indirectsymoff.value.toNat + 4 * (sect.reserved1.value.toNat + i)) := by
    rw [Nat.mul_comm, Nat.add_comm i]
    exact machoData.uint32At_window (by omega)
  have hcount : (dysymtab.indirectComponent machoData is64Bit).data.count =
      4 * dysymtab.nindirectsyms.value.toNat := machoData.window_count h.indirectsFit
  rw [symbolPointerName_eq h.filled (by omega), hword]
  rfl

theorem symbolName_at (h : TablesIn machoData is64Bit symtab dysymtab v) {e : Nat}
    (he : e < symtab.numberOfSymbolTableEntries.value.toNat) :
    ∃ w c entry, CStrings.runInitializing (stringBytes machoData symtab) = .ok c ∧
      w.stringTable = some c ∧
      SymbolTableEntry.init is64Bit w (symbolBytes machoData is64Bit symtab e) = .ok entry ∧
      v.symbolName e = .ok (some entry.symbolName) := by
  have hsize : modelSize SymbolTableEntry is64Bit = if is64Bit then 16 else 12 := by
    cases is64Bit <;> rfl
  have hcount : (symtab.symbolComponent machoData is64Bit).data.count =
      symtab.numberOfSymbolTableEntries.value.toNat * modelSize SymbolTableEntry is64Bit := by
    rw [hsize]
    exact machoData.window_count h.symbolsFit
  have hrecord : (e + 1) * modelSize SymbolTableEntry is64Bit ≤
      symtab.numberOfSymbolTableEntries.value.toNat * modelSize SymbolTableEntry is64Bit :=
    Nat.mul_le_mul_right _ he
  obtain ⟨w, c, entry, hc, hw, hinit, hname⟩ := symbolName_eq h.filled (by rwa [hcount])
  refine ⟨w, c, entry, hc, hw, ?_, hname⟩
  rw [hsize] at hinit hrecord
  unfold symbolBytes
  rw [← hinit]
  refine congrArg _ (machoData.window_window ?_).symm
  rwa [Nat.succ_mul] at hrecord

/-- A pointer that is translated is shown with what its entry stands for. -/
theorem showsPointer_of_translation (h : TablesIn machoData is64Bit symtab dysymtab v)
    (hi : sect.reserved1.value.toNat + i < dysymtab.nindirectsyms.value.toNat) {u : MachoView}
    {c : CStrings} (hc : CStrings.runInitializing (stringBytes machoData symtab) = .ok c)
    (hu : u.stringTable = some c) {t : GeneralTranslation}
    (ht : symbolPointerTranslation is64Bit sect.sectionType.value sect.reserved1.value.toNat v
      (pointerAt machoData is64Bit sect i) i = .ok t) :
    ShowsPointer machoData is64Bit symtab dysymtab sect u i t := by
  unfold symbolPointerTranslation at ht
  rw [bind_eq_ok] at ht
  obtain ⟨name, hname, ht⟩ := ht
  cases ht
  rw [symbolPointerName_at h hi] at hname
  refine ⟨rfl, ?_, ?_⟩
  · intro hunnamed
    rw [hunnamed, if_pos rfl] at hname
    cases hname
    rfl
  · intro hnamed he
    obtain ⟨w, c', entry, hc', hw, hinit, hsymbol⟩ := symbolName_at h he
    rw [hc, Except.ok.injEq] at hc'
    subst hc'
    rw [hnamed, if_neg Bool.false_ne_true, hsymbol, Except.ok.injEq] at hname
    subst hname
    rw [symbolTableEntry_init_congr (hw.trans hu.symm)] at hinit
    refine ⟨entry, hinit, ?_, rfl⟩
    obtain ⟨-, type, name, -, hread, rfl⟩ := symbolTableEntry_init_eq_ok.mp hinit
    exact symbolTableEntry_name_eq_ok hc hu hread

/-- A pointer is translated if its entry is marked or names a symbol. -/
theorem symbolPointerTranslation_returns (h : TablesIn machoData is64Bit symtab dysymtab v)
    (hi : sect.reserved1.value.toNat + i < dysymtab.nindirectsyms.value.toNat)
    (he : unnamedEntry (indirectEntry machoData dysymtab sect i) = false →
      (indirectEntry machoData dysymtab sect i).toNat <
        symtab.numberOfSymbolTableEntries.value.toNat) (p : Field UInt64) :
    ∃ t, symbolPointerTranslation is64Bit sect.sectionType.value sect.reserved1.value.toNat v p i =
      .ok t := by
  unfold symbolPointerTranslation
  rw [symbolPointerName_at h hi]
  cases hunnamed : unnamedEntry (indirectEntry machoData dysymtab sect i) with
  | true => exact ⟨_, rfl⟩
  | false =>
    obtain ⟨w, c, entry, -, -, -, hsymbol⟩ := symbolName_at h (he hunnamed)
    rw [if_neg Bool.false_ne_true, hsymbol]
    exact ⟨_, rfl⟩

/-- What is shown does not depend on the range. -/
theorem ShowsPointer.congr {t t' : GeneralTranslation}
    (h : ShowsPointer machoData is64Bit symtab dysymtab sect v i t)
    (hvalue : t'.humanReadable = t.humanReadable)
    (hextra : t'.extraHumanReadable = t.extraHumanReadable) :
    ShowsPointer machoData is64Bit symtab dysymtab sect v i t' := by
  obtain ⟨h1, h2, h3⟩ := h
  refine ⟨hvalue.trans h1, ?_, ?_⟩
  · rwa [hextra]
  · rwa [hextra]

end Lookups

/-- The component at position `n` is the given section of symbol pointers. -/
structure Macho.PointersAt (machoData : Data) (is64Bit : Bool) (sect : SectionHeader) (m : Macho)
    (n : Nat) (c : MachoComponent) : Prop where
  component : m.allComponents[n]? = some c
  kind : c.kind = .symbolPointer is64Bit sect.sectionType.value sect.reserved1.value.toNat
  fits : sect.offset.value.toNat + sect.size.value.toNat ≤ machoData.count
  data : c.data = machoData.window sect.offset.value.toNat sect.size.value.toNat

theorem pointersAt_sectionID {machoData : Data} {header : MachoHeader} {m : Macho}
    (h : m.Built machoData header) {k : Nat} {sect : SectionHeader}
    (hk : m.sectionHeaders[k]? = some sect) (htype : sect.sectionType.value.isSymbolPointers = true) :
    ∃ c, m.PointersAt machoData header.is64Bit sect (m.sectionID k) c := by
  obtain ⟨c, hc, hcreate⟩ := forall₂_getElem? h.sections hk
  obtain ⟨hplace, -, hkind⟩ := createComponent_eq_ok hcreate
  rcases hplace with ⟨hzero, -⟩ | ⟨-, hfits, hdata⟩
  · exfalso
    cases hvalue : sect.sectionType.value <;>
      simp_all [SectionType.isZeroFill, SectionType.isSymbolPointers]
  · exact ⟨c, allComponents_sectionID hc, hkind htype, hfits, hdata⟩

section Section

variable {m : Macho} {machoData : Data} {is64Bit : Bool} {symtab : LCSymbolTable}
  {dysymtab : LCDynamicSymbolTable} {sect : SectionHeader} {t j i n stack : Nat} {c : MachoComponent}

theorem settled_pointers (hc : m.PointersAt machoData is64Bit sect n c) {v : ComponentState}
    (h : Settled (m.plan stack) m.orderedReads n v) {i : Nat}
    (hi : (i + 1) * addressSize is64Bit ≤ sect.size.value.toNat) :
    v.pointerValues[i]? = some (pointerAt machoData is64Bit sect i) := by
  cases h with
  | mk st _ hv =>
    have hrun := (plan_prepare_eq_some hc.component).mp hv
    unfold MachoComponent.runInitializing at hrun
    simp only [hc.kind, bind_eq_ok] at hrun
    obtain ⟨ps, hps, hrun⟩ := hrun
    cases hrun
    rw [hc.data] at hps
    have hget := initPointers_getElem? hps (by rwa [window_count _ hc.fits])
    rw [Nat.succ_mul] at hi
    rwa [addressAt_window machoData hi] at hget

/-- The section reads the indirect symbol table and the symbol table. -/
theorem mem_orderedReads (hat : m.TablesAt machoData is64Bit symtab dysymtab t j i)
    (hc : m.PointersAt machoData is64Bit sect n c) : j ∈ m.orderedReads n ∧ i ∈ m.orderedReads n := by
  have hno : c.hasFunctionStarts = false := by
    unfold MachoComponent.hasFunctionStarts
    rw [hc.kind]
  rw [orderedReads_eq hc.component hno, hc.kind]
  simp [Macho.initializingReads, Macho.translatingReads, hat.symbolTableID, hat.indirectSymbolTableID]

end Section

/-- **Every symbol pointer is resolved.** Take a file with a symbol, a string and an indirect symbol
table and one of its sections of symbol pointers, and any order of the jobs. From the moment on at
which the section is initialized, the translation of each pointer with an entry in the indirect
symbol table returns, if the entry is marked or in the range of the symbol table, and shows the
pointer; and a section that is done has such a translation of every pointer. -/
theorem symbolPointers_resolved {machoData : Data} {name : String} {header : MachoHeader} {m : Macho}
    (h : Macho.init machoData name header = .ok m) {symtab : LCSymbolTable}
    {dysymtab : LCDynamicSymbolTable}
    (hsymtab : symbolTableLoadCommand m.loadCommands = some symtab)
    (hdysymtab : indirectSymbolTableLoadCommand m.loadCommands = some dysymtab) {k : Nat}
    {sect : SectionHeader} (hk : m.sectionHeaders[k]? = some sect)
    (htype : sect.sectionType.value.isSymbolPointers = true) {stack : Nat}
    {s : State Nat ComponentState (List TranslationGroup)} (hs : (m.plan stack).Reachable s) :
    ((s.cells (m.sectionID k)).prepared = true →
      ∀ i, (i + 1) * addressSize header.is64Bit ≤ sect.size.value.toNat →
        sect.reserved1.value.toNat + i < dysymtab.nindirectsyms.value.toNat →
        (unnamedEntry (indirectEntry machoData dysymtab sect i) = false →
          (indirectEntry machoData dysymtab sect i).toNat <
            symtab.numberOfSymbolTableEntries.value.toNat) →
        ∃ p t, (s.states (m.sectionID k)).pointerValues[i]? = some p ∧
          symbolPointerTranslation header.is64Bit sect.sectionType.value
            sect.reserved1.value.toNat (m.view s.states) p i = .ok t ∧
          ShowsPointer machoData header.is64Bit symtab dysymtab sect (m.view s.states) i t) ∧
    ((s.cells (m.sectionID k)).isDone = true →
      ∃ groups, (s.cells (m.sectionID k)).groups = some groups ∧
        ∀ i, (i + 1) * addressSize header.is64Bit ≤ sect.size.value.toNat →
          sect.reserved1.value.toNat + i < dysymtab.nindirectsyms.value.toNat →
          ∃ t, groups.flatten[i]? = some t ∧
            ShowsPointer machoData header.is64Bit symtab dysymtab sect (m.view s.states) i t) := by
  have hbuilt := init_built h
  have hregistered := init_registered h
  have hwf := plan_wf hregistered stack
  have hbefore := orderedReads_before hregistered stack
  have htables := tablesOf_built hbuilt hsymtab hdysymtab
  obtain ⟨c, hc⟩ := pointersAt_sectionID hbuilt hk htype
  obtain ⟨t, j, i, hat, hindirects⟩ :=
    tablesAt_of_symbolPointer hbuilt hregistered htables hc.component hc.kind
  obtain ⟨hj, hi⟩ := mem_orderedReads hat hc
  have hin : ∀ states : Nat → ComponentState, Settled (m.plan stack) m.orderedReads j (states j) →
      Settled (m.plan stack) m.orderedReads i (states i) →
      TablesIn machoData header.is64Bit symtab dysymtab (m.view states) := fun _ hj hi =>
    ⟨tablesFilled_view hat hj hi, htables.symbolsFit, hindirects⟩
  -- the tables were filled in before the section was begun
  have hsettled : 0 < (s.cells (m.sectionID k)).starts → ∀ r, (m.plan stack).Before r (m.sectionID k) →
      Settled (m.plan stack) m.orderedReads r (s.states r) := fun hstart r hr =>
    (hs.consistent hwf hbefore r).state (hs.before_prepared hwf hstart hr)
  have hstrings : 0 < (s.cells (m.sectionID k)).starts → ∃ strings,
      CStrings.runInitializing (stringBytes machoData symtab) = .ok strings ∧
        (m.view s.states).stringTable = some strings := fun hstart =>
    ⟨_, settled_strings hat (hsettled hstart t
      ((hbefore j t (mem_orderedReads_symbols hat)).trans (hbefore _ j hj))),
      view_stringTable_eq hat s.states⟩
  constructor
  · intro hprepared p hp hentry he
    have hstart := hs.prepared_starts hwf hprepared
    have hown := (hs.consistent hwf hbefore (m.sectionID k)).state hprepared
    have hin := hin s.states (hsettled hstart j (hbefore _ j hj)) (hsettled hstart i (hbefore _ i hi))
    obtain ⟨strings, hstrings, hview⟩ := hstrings hstart
    obtain ⟨u, hu⟩ := symbolPointerTranslation_returns hin hentry he
      (pointerAt machoData header.is64Bit sect p)
    exact ⟨_, u, settled_pointers hc hown hp, hu,
      showsPointer_of_translation hin hentry hstrings hview hu⟩
  · intro hdone
    have hstart : 0 < (s.cells (m.sectionID k)).starts := by
      rw [hs.done_starts hwf hdone]
      exact Nat.one_pos
    obtain ⟨strings, hstrings, hview⟩ := hstrings hstart
    obtain ⟨gs, hgroups, st, hown, hreads, htranslate⟩ :=
      (hs.consistent hwf hbefore (m.sectionID k)).fixed (hs.done_fixed hwf hdone).1
    have hin := hin st (hreads j hj) (hreads i hi)
    have hrun := (plan_translate_eq_some hc.component).mp htranslate
    unfold MachoComponent.runTranslating at hrun
    simp only [hc.kind] at hrun
    refine ⟨_, hgroups, ?_⟩
    intro p hp hentry
    obtain ⟨u, hu, htranslation⟩ := translatePointers_getElem? hrun (settled_pointers hc hown hp)
    have hshows := showsPointer_of_translation hin hentry hstrings hview htranslation
    obtain ⟨r, hr⟩ := fix_getElem? hu _
    exact ⟨_, hr, hshows.congr rfl rfl⟩

/-- A section with one symbol pointer, whose entry is the symbol `f`. -/
def pointerFile : Data :=
  ⟨0, word 0xfeedfacf ++ word 0x0100000c ++ word 0 ++ word 2 ++ word 3 ++ word 256 ++ word 0 ++
      word 0 ++
    (word 0x19 ++ word 152 ++ paddedName 16 "__DATA" ++ quad 0 ++ quad 0x1000 ++ quad 0 ++
      quad 0 ++ word 3 ++ word 3 ++ word 1 ++ word 0) ++
    (paddedName 16 "__got" ++ paddedName 16 "__DATA" ++ quad 0 ++ quad 8 ++ word 288 ++ word 0 ++
      word 0 ++ word 0 ++ word 6 ++ word 0 ++ word 0 ++ word 0) ++
    (word 0x2 ++ word 24 ++ word 296 ++ word 1 ++ word 316 ++ word 3) ++
    (word 0xb ++ word 80 ++ List.replicate 48 0 ++ word 312 ++ word 1 ++ List.replicate 16 0) ++
    quad 7 ++ (word 1 ++ [0x0e, 1, 0, 0] ++ quad 16) ++ word 0 ++ [0, 0x66, 0]⟩

/-- Its header. -/
def pointerFileHeader : MachoHeader := MachoHeader.layout true (pointerFile.window 0 32)

/-- All steps of `pointerFile`: the string table, the symbol table, the indirect symbol table and the
section, one after the other. -/
def tablesInOrder : List Plan.Choice :=
  List.replicate 8 Plan.Choice.main ++ List.replicate 31 (Plan.Choice.job 0) ++
    List.replicate 6 Plan.Choice.main ++ List.replicate 7 (Plan.Choice.job 0) ++
    List.replicate 2 Plan.Choice.main ++ List.replicate 7 (Plan.Choice.job 0) ++
    List.replicate 2 Plan.Choice.main ++ List.replicate 6 (Plan.Choice.job 0) ++ [Plan.Choice.main]

/-- The file `pointerFile`, its state after these steps, its tables and its section. -/
def pointerFileRun : Option (Macho × State Nat ComponentState (List TranslationGroup) × LCSymbolTable ×
    LCDynamicSymbolTable × SectionHeader) := do
  let m ← (Macho.init pointerFile "p" pointerFileHeader).toOption
  let s ← (m.plan 0).run (m.plan 0).start tablesInOrder
  let symtab ← symbolTableLoadCommand m.loadCommands
  let dysymtab ← indirectSymbolTableLoadCommand m.loadCommands
  let sect ← m.sectionHeaders[0]?
  return (m, s, symtab, dysymtab, sect)

theorem symbolPointers_resolved_pointerFile :
    ∃ m s symtab dysymtab sect groups t, Macho.init pointerFile "p" pointerFileHeader = .ok m ∧
      (m.plan 0).Reachable s ∧ (s.cells (m.sectionID 0)).groups = some groups ∧
      groups.flatten[0]? = some t ∧
      ShowsPointer pointerFile true symtab dysymtab sect (m.view s.states) 0 t := by
  have hrun : pointerFileRun.map (fun (m, s, _, dysymtab, sect) =>
      ((s.cells (m.sectionID 0)).isDone, sect.sectionType.value.isSymbolPointers,
        sect.size.value.toNat, sect.reserved1.value.toNat, dysymtab.nindirectsyms.value.toNat)) =
      some (true, true, 8, 0, 1) := by
    decide +kernel
  obtain ⟨⟨m, s, symtab, dysymtab, sect⟩, hrun, hfacts⟩ := Option.map_eq_some_iff.mp hrun
  simp only [Prod.mk.injEq] at hfacts
  obtain ⟨hdone, htype, hsize, hstart, hcount⟩ := hfacts
  unfold pointerFileRun at hrun
  simp only [Option.bind_eq_bind, Option.bind_eq_some_iff] at hrun
  obtain ⟨m', hm, s', hs, symtab', hsymtab, dysymtab', hdysymtab, sect', hsect, heq⟩ := hrun
  cases heq
  have hinit := toOption_eq_some.mp hm
  have hreach := Plan.reachable_of_run _ .refl hs
  obtain ⟨groups, hgroups, hshows⟩ :=
    (symbolPointers_resolved hinit hsymtab hdysymtab hsect htype hreach).2 hdone
  obtain ⟨t, ht, hshown⟩ := hshows 0 (by rw [hsize]; decide) (by omega)
  exact ⟨m, s, symtab, dysymtab, sect, groups, t, hinit, hreach, hgroups, ht, hshown⟩

end Mocha
