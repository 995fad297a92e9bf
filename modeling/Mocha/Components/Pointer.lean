import Mocha.Components.Symbols

/-!
# Pointer sections (`PointerComponent.swift`)

A section of pointers is read pointer by pointer. A literal pointer is shown with the string it
points to, searched for in every C-string section; a symbol pointer with the name of the symbol its
indirect symbol table entry stands for.

`pointers_shown`: the pointers, in order, are the data, for either subclass.
-/

namespace Mocha

open Lib Data DataShifter

/-- The guard of `PointerComponent.init`. -/
def pointerGuard (is64Bit : Bool) (d : Data) : Run Unit :=
  guardElse (d.count % addressSize is64Bit == 0)

/-- `self.is64Bit ? pointerData.UInt64 : UInt64(pointerData.UInt32)`. -/
def Data.pointer (is64Bit : Bool) (d : Data) : Run (Field UInt64) :=
  if is64Bit then d.uint64 else do return (← d.uint32).map UInt32.toUInt64

/-- One turn of the loop of `PointerComponent.runInitializing`. -/
def nextPointer (is64Bit : Bool) (s : DataShifter) : Run (Field UInt64 × DataShifter) := do
  let (pointerData, s) ← s.shift (.rawNumber (addressSize is64Bit))
  return (← pointerData.pointer is64Bit, s)

/-- `while dataShifter.shiftable { … }`. -/
def pointerLoop (is64Bit : Bool) : Loop Trap DataShifter (Field UInt64) where
  more := DataShifter.shiftable
  next := nextPointer is64Bit
  rank := DataShifter.left
  lowers _ hn := by
    unfold nextPointer at hn
    rw [bind_eq_ok] at hn
    obtain ⟨⟨pointerData, u⟩, hs, hn⟩ := hn
    rw [bind_eq_ok] at hn
    obtain ⟨x, _, hn⟩ := hn
    cases hn
    exact shift_left_lt hs

/-- `PointerComponent.runInitializing()`. -/
def initPointers (is64Bit : Bool) (d : Data) : Run (List (Field UInt64)) := do
  let (pointerValues, _) ← (pointerLoop is64Bit).run (DataShifter.init d)
  return pointerValues

/-- The search of `LiteralPointerComponent.translation(for:index:)`: once a string is found, the
other sections are not asked. -/
def findLiteral (virtualAddress : UInt64) : List CStringSection → Run (Option String)
  | [] => .ok none
  | c :: cs => do
    match ← c.findString virtualAddress with
    | some s => return some s
    | none => findLiteral virtualAddress cs

/-- `LiteralPointerComponent.translation(for:index:)`. -/
def literalPointerTranslation (is64Bit : Bool) (v : MachoView) (pointerValue : Field UInt64) :
    Run GeneralTranslation := do
  let searchedString ← findLiteral pointerValue.value v.cStringSections
  return (pointerValue.translation "Pointer Value (Virtual Address)"
    (hex pointerValue.value.toNat) (addressSize is64Bit) (addressType is64Bit)).extra
      (some "Referenced String Symbol") searchedString

/-- The symbol name `SymbolPointerComponent.translation(for:index:)` shows. -/
def symbolPointerName (v : MachoView) (indirectSymbolTableIndex : Nat) : Run (Option String) :=
  match v.indirectSymbolTable with
  | none => .ok none
  | some models => do
    let entry ← findIndirectSymbol models indirectSymbolTableIndex
    if entry.isSymbolLocal || entry.isSymbolAbsolute then
      return some ("Local Symbol. Absolute: " ++ toString entry.isSymbolAbsolute)
    else v.symbolName entry.symbolTableIndex.value.toNat

/-- `SymbolPointerComponent.translation(for:index:)`. -/
def symbolPointerTranslation (is64Bit : Bool) (sectionType : SectionType)
    (startIndexInIndirectSymbolTable : Nat) (v : MachoView) (pointerValue : Field UInt64)
    (index : Nat) : Run GeneralTranslation := do
  let symbolName ← symbolPointerName v (index + startIndexInIndirectSymbolTable)
  let description := "Pointer Raw Value" ++
    (if sectionType = .S_LAZY_SYMBOL_POINTERS then " (Stub offset)"
      else if sectionType = .S_NON_LAZY_SYMBOL_POINTERS then " (To be fixed by dyld)" else "")
  return (pointerValue.translation description (hex pointerValue.value.toNat)
    (addressSize is64Bit) (addressType is64Bit)).extra
      (some "Symbol Name of the Corresponding Indirect Symbol Table Entry") symbolName

/-- `PointerComponent.runTranslating()`, with the subclass's `translation(for:index:)`. -/
def translatePointers (translation : Field UInt64 → Nat → Run GeneralTranslation)
    (pointerValues : List (Field UInt64)) : Run (List TranslationGroup) := do
  return [← pointerValues.zipIdx.mapM fun p => translation p.1 p.2]

/-! ## The pointers -/

theorem pointer_window {is64Bit : Bool} {d : Data} {k : Nat} (h : k + addressSize is64Bit ≤ d.count) :
    (d.window k (addressSize is64Bit)).pointer is64Bit = .ok (addressAt is64Bit d k) := by
  cases is64Bit with
  | true => exact uint64_window h
  | false =>
    unfold Data.pointer
    rw [if_neg Bool.false_ne_true]
    exact congrArg (fun r => r >>= fun x => pure (x.map UInt32.toUInt64)) (uint32_window h)

theorem nextPointer_eq_ok {is64Bit : Bool} {d : Data} {k : Nat} {r : Field UInt64 × DataShifter} :
    nextPointer is64Bit (cursor d k) = .ok r ↔ k + addressSize is64Bit ≤ d.count ∧
      r = (addressAt is64Bit d k, cursor d (k + addressSize is64Bit)) :=
  shift_read_eq_ok rfl (by cases is64Bit <;> decide) pointer_window

/-- The loop reads one pointer after the other. -/
theorem pointerLoop_getElem? {is64Bit : Bool} {d : Data} {k : Nat} {s u : DataShifter}
    {ps : List (Field UInt64)} (h : (pointerLoop is64Bit).Turns s ps u) (hs : s = cursor d k)
    (hend : (pointerLoop is64Bit).more u = false) {i : Nat}
    (hi : k + (i + 1) * addressSize is64Bit ≤ d.count) :
    ps[i]? = some (addressAt is64Bit d (k + i * addressSize is64Bit)) := by
  induction h generalizing k i with
  | nil s =>
    subst hs
    have hpos : 0 < addressSize is64Bit := by cases is64Bit <;> decide
    have hge : ¬ k < d.count := by
      rw [← decide_eq_false_iff_not, ← shiftable_cursor]
      exact hend
    rw [Nat.succ_mul] at hi
    omega
  | cons hm hn _ ih =>
    subst hs
    obtain ⟨-, hr⟩ := nextPointer_eq_ok.mp hn
    cases hr
    cases i with
    | zero =>
      rw [Nat.zero_mul, Nat.add_zero]
      rfl
    | succ i =>
      have hnext := ih rfl hend (i := i) (by rw [Nat.succ_mul] at hi; omega)
      rw [List.getElem?_cons_succ, hnext, Nat.succ_mul, Nat.add_assoc k, Nat.add_comm (addressSize _)]

/-- **Pointer `i` is the word at `i` times the pointer size.** -/
theorem initPointers_getElem? {is64Bit : Bool} {d : Data} {ps : List (Field UInt64)}
    (h : initPointers is64Bit d = .ok ps) {i : Nat} (hi : (i + 1) * addressSize is64Bit ≤ d.count) :
    ps[i]? = some (addressAt is64Bit d (i * addressSize is64Bit)) := by
  unfold initPointers at h
  rw [bind_eq_ok] at h
  obtain ⟨⟨_, u⟩, hrun, h⟩ := h
  cases h
  obtain ⟨hturns, hend⟩ := Loop.run_eq_ok_iff.mp hrun
  have hget := pointerLoop_getElem? hturns (init_eq d) hend (i := i) (by omega)
  rwa [Nat.zero_add] at hget

/-- Translation `i` is that of pointer `i`. -/
theorem translatePointers_getElem? {translation : Field UInt64 → Nat → Run GeneralTranslation}
    {ps : List (Field UInt64)} {gs : List TranslationGroup}
    (h : translatePointers translation ps = .ok gs) {i : Nat} {p : Field UInt64} (hp : ps[i]? = some p) :
    ∃ t, gs.flatten[i]? = some t ∧ translation p i = .ok t := by
  unfold translatePointers at h
  rw [bind_eq_ok] at h
  obtain ⟨ts, hts, h⟩ := h
  cases h
  have hindexed : ps.zipIdx[i]? = some (p, i) := by
    rw [List.getElem?_zipIdx, hp, Option.map_some, Nat.zero_add]
  rw [List.flatten_cons, List.flatten_nil, List.append_nil]
  exact forall₂_getElem? (mapM_eq_ok.mp hts) hindexed

/-! ## Ranges -/

theorem literalPointerTranslation_shows {is64Bit : Bool} {v : MachoView} {p : Field UInt64}
    {t : GeneralTranslation} (h : literalPointerTranslation is64Bit v p = .ok t) :
    t.shows = p.span ∧ t.bytesCount = addressSize is64Bit := by
  unfold literalPointerTranslation at h
  rw [bind_eq_ok] at h
  obtain ⟨searchedString, _, h⟩ := h
  cases h
  exact ⟨rfl, rfl⟩

theorem symbolPointerTranslation_shows {is64Bit : Bool} {type : SectionType} {start : Nat}
    {v : MachoView} {p : Field UInt64} {i : Nat} {t : GeneralTranslation}
    (h : symbolPointerTranslation is64Bit type start v p i = .ok t) :
    t.shows = p.span ∧ t.bytesCount = addressSize is64Bit := by
  unfold symbolPointerTranslation at h
  rw [bind_eq_ok] at h
  obtain ⟨symbolName, _, h⟩ := h
  cases h
  exact ⟨rfl, rfl⟩

/-- **The pointers are the data**, for every way to show one. -/
theorem pointers_shown {is64Bit : Bool} {d : Data} {ps : List (Field UInt64)}
    {translation : Field UInt64 → Nat → Run GeneralTranslation} {gs : List TranslationGroup}
    (htranslation : ∀ p i t, translation p i = .ok t →
      t.shows = p.span ∧ t.bytesCount = addressSize is64Bit)
    (h : initPointers is64Bit d = .ok ps) (hgs : translatePointers translation ps = .ok gs) :
    Shown d.startIndex d.endIndex gs.flatten := by
  unfold initPointers at h
  rw [bind_eq_ok] at h
  obtain ⟨⟨_, u⟩, hrun, h⟩ := h
  cases h
  unfold translatePointers at hgs
  rw [bind_eq_ok] at hgs
  obtain ⟨ts, hts, hgs⟩ := hgs
  cases hgs
  obtain ⟨hturns, hend⟩ := Loop.run_eq_ok_iff.mp hrun
  have hshown := shown_turns (I := fun s => ∃ j, j ≤ d.count ∧ s = cursor d j)
    (p := fun s => d.startIndex + s.shifted.toNat)
    (f := fun x : Field UInt64 => [x.translation "" "" (addressSize is64Bit) .uint64]) ?_
    hturns ⟨0, Nat.zero_le _, rfl⟩
  · obtain ⟨⟨e, he, rfl⟩, hshown⟩ := hshown
    have hend : ¬ e < d.count := by
      rw [← decide_eq_false_iff_not, ← shiftable_cursor]
      exact hend
    have hcount : e = d.count := by omega
    subst hcount
    rw [← List.map_eq_flatMap] at hshown
    rw [List.flatten_cons, List.flatten_nil, List.append_nil]
    refine hshown.congr ?_
    -- the values of the enumerated list are the list itself
    have hfst : ps.zipIdx.map Prod.fst = ps := List.zipIdx_map_fst 0 ps
    rw [← hfst, List.map_map, List.forall₂_map_left_iff]
    exact (mapM_eq_ok.mp hts).imp fun p t ht => htranslation p.1 p.2 t ht
  · rintro _ _ x ⟨j, _, rfl⟩ _ hn
    obtain ⟨hle, hr⟩ := nextPointer_eq_ok.mp hn
    cases hr
    refine ⟨⟨_, hle, rfl⟩, addressAt_span is64Bit d j, ?_⟩
    exact Nat.add_assoc d.startIndex j (addressSize is64Bit)

end Mocha
