import Mocha.Components.ModelBased

/-!
# The index of a symbol table (`SymbolTable.swift`)

`runInitializing` files every symbol under its address: many symbols may share one, and their indices
are appended in the order of the table. `filed` are the symbols of a stretch of the table under an
address, and `entryMap_lookup` is the invariant of the loop: what the map has for an address is what
it had before, and then what was filed since.

**`symbolTable_index`**: looking an address up is a scan of the table for it, and looking an index up is
decoding the record there.
-/

namespace Mocha

open Lib Data

namespace SymbolTable

/-- The symbols of a stretch of the table at an address, with their indices. -/
def filed (index : Nat) (es : List SymbolTableEntry) (a : UInt64) : List (SymbolTableEntry × Nat) :=
  (es.zipIdx index).filter fun p => p.1.nValue.value = a

/-- The indices the table has for an address. -/
def indexes (t : SymbolTable) (a : UInt64) : List Nat := (t.symbolTableEntryMap.lookup a).getD []

theorem filed_cons (index : Nat) (e : SymbolTableEntry) (es : List SymbolTableEntry) (a : UInt64) :
    (filed index (e :: es) a).map Prod.snd =
      (if a = e.nValue.value then [index] else []) ++ (filed (index + 1) es a).map Prod.snd := by
  unfold filed
  rw [List.zipIdx_cons, List.filter_cons]
  by_cases h : a = e.nValue.value
  · simp [h]
  · have h' : ¬ e.nValue.value = a := fun heq => h heq.symm
    simp [h, h']

/-- **The loop files the rest of the table**: after what the map has for an address. -/
theorem entryMap_lookup (a : UInt64) (es : List SymbolTableEntry) :
    ∀ (index : Nat) (map : List (UInt64 × List Nat)),
      ((entryMap index map es).lookup a).getD [] =
        (map.lookup a).getD [] ++ (filed index es a).map Prod.snd := by
  induction es with
  | nil =>
    intro index map
    exact (List.append_nil _).symm
  | cons e es ih =>
    intro index map
    rw [filed_cons, ← List.append_assoc]
    unfold entryMap
    by_cases h : a = e.nValue.value
    · subst h
      cases hlookup : map.lookup e.nValue.value with
      | none => simp [ih, List.lookup_cons_self]
      | some existedIndexs => simp [ih, List.lookup_cons_self]
    · have hother : (a == e.nValue.value) = false := beq_false_of_ne h
      cases hlookup : map.lookup e.nValue.value with
      | none => simp [ih, List.lookup_cons, hother, h]
      | some existedIndexs => simp [ih, List.lookup_cons, hother, h]

section OfModels

variable (models : List SymbolTableEntry) (a : UInt64)

theorem indexes_ofModels : (ofModels models).indexes a = (filed 0 models a).map Prod.snd :=
  entryMap_lookup a models 0 []

theorem filed_fst : (filed 0 models a).map Prod.fst = models.filter fun e => e.nValue.value = a := by
  have hfirst : models = (models.zipIdx).map Prod.fst := (List.zipIdx_map_fst 0 models).symm
  conv => rhs; rw [hfirst]
  rw [List.filter_map]
  rfl

/-- A filed symbol stands at its index. -/
theorem getElem?_of_filed {p : SymbolTableEntry × Nat} (hp : p ∈ filed 0 models a) :
    models[p.2]? = some p.1 :=
  List.mk_mem_zipIdx_iff_getElem?.mp (List.mem_of_mem_filter hp)

theorem indexes_increasing : ((ofModels models).indexes a).Pairwise (· < ·) := by
  rw [indexes_ofModels]
  have hsublist : ((filed 0 models a).map Prod.snd).Sublist ((models.zipIdx).map Prod.snd) :=
    List.filter_sublist.map Prod.snd
  rw [List.zipIdx_map_snd] at hsublist
  exact List.Pairwise.sublist hsublist List.pairwise_lt_range'

theorem mem_indexes {i : Nat} :
    i ∈ (ofModels models).indexes a ↔ ∃ e, models[i]? = some e ∧ e.nValue.value = a := by
  rw [indexes_ofModels, List.mem_map]
  constructor
  · rintro ⟨p, hp, rfl⟩
    obtain ⟨-, ha⟩ := List.mem_filter.mp hp
    exact ⟨p.1, getElem?_of_filed models a hp, of_decide_eq_true ha⟩
  · rintro ⟨e, he, ha⟩
    exact ⟨(e, i), List.mem_filter.mpr ⟨List.mk_mem_zipIdx_iff_getElem?.mpr he, decide_eq_true ha⟩, rfl⟩

/-- The map finds what a scan of the table finds. -/
theorem findSymbolBy_ofModels :
    (ofModels models).findSymbolBy a = .ok (models.filter fun e => e.nValue.value = a) := by
  change ((ofModels models).indexes a).mapM _ = _
  rw [indexes_ofModels, ← filed_fst, mapM_eq_ok, List.forall₂_map_left_iff, List.forall₂_map_right_iff,
    List.forall₂_same]
  intro p hp
  simp only [ofModels, getElem?_of_filed models a hp]

end OfModels

end SymbolTable

/-- **The index of a symbol table agrees with a scan.** The symbols found under an address are those of
the table with that value, in the order of the table and each one once; the symbol found at an index is
decoded from the record there. -/
theorem symbolTable_index {is64Bit : Bool} {v : MachoView} {d : Data} {t : SymbolTable}
    (h : SymbolTable.runInitializing is64Bit v d = .ok t) :
    (∀ a, t.findSymbolBy a = .ok (t.models.filter fun e => e.nValue.value = a) ∧
      (t.indexes a).Pairwise (· < ·) ∧
      ∀ i, i ∈ t.indexes a ↔ ∃ e, t.models[i]? = some e ∧ e.nValue.value = a) ∧
    t.models.length = d.count / modelSize SymbolTableEntry is64Bit ∧
    ∀ i < d.count / modelSize SymbolTableEntry is64Bit, ∃ e, t.findSymbolAt i = .ok e ∧
      t.models[i]? = some e ∧ SymbolTableEntry.init is64Bit v
        (d.window (i * modelSize SymbolTableEntry is64Bit) (modelSize SymbolTableEntry is64Bit)) = .ok e := by
  unfold SymbolTable.runInitializing at h
  rw [bind_eq_ok] at h
  obtain ⟨models, hmodels, h⟩ := h
  cases h
  refine ⟨fun a => ⟨SymbolTable.findSymbolBy_ofModels models a, SymbolTable.indexes_increasing models a,
    fun i => SymbolTable.mem_indexes models a⟩, ?_, fun i hi => ?_⟩
  · have hlength := (mapM_eq_ok.mp hmodels).length_eq
    rw [List.length_range] at hlength
    exact hlength.symm
  · have hpos : 0 < modelSize SymbolTableEntry is64Bit := by cases is64Bit <;> decide
    obtain ⟨e, he, hinit⟩ := initModels_getElem? hmodels hpos ((Nat.le_div_iff_mul_le hpos).mp hi)
    refine ⟨e, ?_, he, hinit⟩
    rw [SymbolTable.findSymbolAt, SymbolTable.ofModels, he]
    rfl

/-- Three stab symbols of 32 bits, the first and the last at 16. -/
def stabTable : Data :=
  ⟨0, [0, 0, 0, 0, 0x24, 1, 0, 0, 16, 0, 0, 0] ++ [0, 0, 0, 0, 0x24, 1, 0, 0, 32, 0, 0, 0] ++
    [0, 0, 0, 0, 0x20, 0, 0, 0, 16, 0, 0, 0]⟩

theorem symbolTable_index_stabTable :
    ∃ t, SymbolTable.runInitializing false MachoView.empty stabTable = .ok t ∧ t.indexes 16 = [0, 2] ∧
      t.findSymbolBy 16 = .ok (t.models.filter fun e => e.nValue.value = 16) := by
  have hread : (SymbolTable.runInitializing false MachoView.empty stabTable).map
      (fun t => t.indexes 16) = .ok [0, 2] := by decide +kernel
  cases h : SymbolTable.runInitializing false MachoView.empty stabTable with
  | error e =>
    rw [h] at hread
    cases hread
  | ok t =>
    rw [h] at hread
    exact ⟨t, rfl, Except.ok.inj hread, ((symbolTable_index h).1 16).1⟩

end Mocha
