import Mocha.Helpers.DataShifter
import Mocha.Models.Translations

/-!
# C-string components (`CStringComponent.swift`, `StringTable.swift`)

`CStringComponent.runInitializing` cuts the data into pieces: a run of NULs (`zerosEnd`) or a
string with its NUL (`stringEnd`); a string at the end of the data may lack the NUL. Offsets are
relative to the component. `findString` answers only for offsets where a piece starts.

`cStrings_shown`: the pieces, in order, are the data.
-/

namespace Mocha

open Lib Data

/-- `CStringModel`. `demangled` is always `nil`. -/
structure CStringModel where
  startOffset : Nat
  length : Nat
  content : Option String
  deriving DecidableEq

/-- What `runInitializing` fills in: the pieces, and the map from start offsets to indices as the
list of its assignments, the last one first. -/
structure CStrings where
  cStrings : List (Field CStringModel)
  cStringOffsetIndexMap : List (Nat × Nat)
  deriving DecidableEq

/-- The component before `runInitializing`. -/
def CStrings.empty : CStrings := ⟨[], []⟩

/-- `while (currentIndex < self.data.count && more) { … }` over a run of NULs. -/
def zerosEnd (d : Data) (index : Nat) : Nat :=
  if _ : index < d.count then
    if d.bytes[index]? = some 0 then zerosEnd d (index + 1) else index
  else index
termination_by d.count - index

/-- `while (byte != 0 && currentIndex < self.data.count) { … }` over a string. -/
def stringEnd (d : Data) (byte : UInt8) (index : Nat) : Nat :=
  if _ : byte ≠ 0 ∧ index < d.count then stringEnd d (d.bytes.getD index 0) (index + 1) else index
termination_by d.count - index

/-- One turn of the loop of `runInitializing`. -/
def nextCString (d : Data) (index : Nat) : Run (Field CStringModel × Nat) := do
  let byte ← d.byteAt (d.startIndex + index)
  if byte.value = 0 then
    let length := zerosEnd d (index + 1) - index
    return (⟨⟨index, length, some ""⟩, Span.of (d.startIndex + index) length⟩, zerosEnd d (index + 1))
  else
    let length := stringEnd d byte.value index - index
    let string ← d.subSequence index length
    return (⟨⟨index, length, string.utf8String⟩, string.span⟩, stringEnd d byte.value index)

theorem zerosEnd_bounds (d : Data) (k : Nat) :
    k ≤ zerosEnd d k ∧ (k ≤ d.count → zerosEnd d k ≤ d.count) := by
  fun_induction zerosEnd d k with
  | case1 k hk _ ih => exact ⟨by omega, fun _ => ih.2 hk⟩
  | case2 k => exact ⟨Nat.le_refl k, id⟩
  | case3 k => exact ⟨Nat.le_refl k, id⟩

theorem stringEnd_bounds (d : Data) (b : UInt8) (k : Nat) :
    k ≤ stringEnd d b k ∧ (k ≤ d.count → stringEnd d b k ≤ d.count) := by
  fun_induction stringEnd d b k with
  | case1 b k hk ih => exact ⟨by omega, fun _ => ih.2 hk.2⟩
  | case2 b k => exact ⟨Nat.le_refl k, id⟩

/-- A turn moves on by the length of the piece it returns. -/
theorem nextCString_piece {d : Data} {k t : Nat} {x : Field CStringModel}
    (h : nextCString d k = .ok (x, t)) :
    k < t ∧ t ≤ d.count ∧ x.value.length = t - k ∧ x.span = Span.of (d.startIndex + k) (t - k) := by
  unfold nextCString at h
  rw [bind_eq_ok] at h
  obtain ⟨byte, hbyte, h⟩ := h
  obtain ⟨b, hb, rfl⟩ := byteAt_eq_ok.mp hbyte
  have hk : k < d.count := (List.getElem?_eq_some_iff.mp hb).1
  split at h
  · cases h
    obtain ⟨hle, hend⟩ := zerosEnd_bounds d (k + 1)
    exact ⟨by omega, hend hk, rfl, rfl⟩
  · rw [bind_eq_ok] at h
    obtain ⟨string, hstring, h⟩ := h
    obtain ⟨hpos, hfit, rfl⟩ := subSequence_eq_ok.mp hstring
    cases h
    obtain ⟨_, hend⟩ := stringEnd_bounds d b k
    exact ⟨by omega, hend (Nat.le_of_lt hk), rfl, window_span d hfit⟩

/-- `while currentIndex < self.data.count { … }`. -/
def cStringComponentLoop (d : Data) : Loop Trap Nat (Field CStringModel) where
  more index := decide (index < d.count)
  next := nextCString d
  rank index := d.count - index
  lowers hm hn := by
    obtain ⟨hlt, hle, _⟩ := nextCString_piece hn
    have hk := of_decide_eq_true hm
    omega

/-- `CStringComponent.runInitializing()`. -/
def CStrings.runInitializing (d : Data) : Run CStrings := do
  let (cStrings, _) ← (cStringComponentLoop d).run 0
  return ⟨cStrings, (cStrings.mapIdx fun index c => (c.value.startOffset, index)).reverse⟩

/-- **`runInitializing` always returns.** -/
theorem cStrings_total (d : Data) : ∃ c, CStrings.runInitializing d = .ok c := by
  have hturn : ∀ {k : Nat}, True → (cStringComponentLoop d).more k = true →
      ∃ x t, (cStringComponentLoop d).next k = .ok (x, t) ∧ True := by
    intro k _ hm
    have hk : k < d.count := of_decide_eq_true hm
    obtain ⟨b, hb⟩ : ∃ b, d.bytes[k]? = some b := ⟨_, List.getElem?_eq_getElem hk⟩
    change ∃ x t, nextCString d k = .ok (x, t) ∧ True
    unfold nextCString
    rw [byteAt_eq_ok.mpr ⟨b, hb, rfl⟩, ok_bind]
    by_cases hzero : b = 0
    · rw [if_pos hzero]
      exact ⟨_, _, rfl, trivial⟩
    · rw [if_neg hzero]
      -- the first turn of the inner loop is made, so the piece is not empty
      have hend : stringEnd d b k = stringEnd d (d.bytes.getD k 0) (k + 1) := by
        rw [stringEnd, dif_pos ⟨hzero, hk⟩]
      obtain ⟨hlt, hle⟩ := stringEnd_bounds d (d.bytes.getD k 0) (k + 1)
      rw [← hend] at hlt hle
      have hcut := subSequence_ok (d := d) (k := k) (n := stringEnd d b k - k) (by omega)
        (by have := hle hk; omega)
      simp only [hcut, ok_bind]
      exact ⟨_, _, rfl, trivial⟩
  obtain ⟨pieces, u, hrun⟩ := Loop.run_total hturn (s := 0) trivial
  unfold CStrings.runInitializing
  rw [hrun]
  exact ⟨_, rfl⟩

/-- `CStringComponent.runTranslating()`. -/
def CStrings.runTranslating (c : CStrings) : List TranslationGroup :=
  [c.cStrings.map fun s =>
    { s.translation "" (s.value.content.getD "🙅‍♂️ Invalid UTF8 String") s.value.length .utf8String
      with definition := none }]

/-- `findString(atDataOffset:)`. -/
def CStrings.findString (c : CStrings) (offset : Nat) : Run (Option String) :=
  match c.cStringOffsetIndexMap.lookup offset with
  | some index =>
    match c.cStrings[index]? with
    | some s => .ok s.value.content
    | none => .error .outOfBounds
  | none => .ok none

/-- `CStringSectionComponent.findString(virtualAddress:)`. -/
def CStrings.findStringAt (c : CStrings) (baseVirtualAddress : UInt64) (dataSize : Nat)
    (virtualAddress : UInt64) : Run (Option String) := do
  if 2 ^ 64 ≤ baseVirtualAddress.toNat + dataSize then .error .overflow
  if virtualAddress.toNat < baseVirtualAddress.toNat ∨
      baseVirtualAddress.toNat + dataSize ≤ virtualAddress.toNat then
    return none
  c.findString (virtualAddress.toNat - baseVirtualAddress.toNat)

/-- **The pieces are the data.** -/
theorem cStrings_shown {d : Data} {c : CStrings} (h : CStrings.runInitializing d = .ok c) :
    Shown d.startIndex d.endIndex c.runTranslating.flatten := by
  unfold CStrings.runInitializing at h
  rw [bind_eq_ok] at h
  obtain ⟨⟨pieces, u⟩, hrun, h⟩ := h
  cases h
  obtain ⟨hturns, hend⟩ := Loop.run_eq_ok_iff.mp hrun
  have hshown := shown_turns (I := fun k => k ≤ d.count) (p := fun k => d.startIndex + k)
    (f := fun s : Field CStringModel =>
      [{ s.translation "" (s.value.content.getD "🙅‍♂️ Invalid UTF8 String") s.value.length
          .utf8String with definition := none }]) ?_ hturns (Nat.zero_le _)
  · obtain ⟨hle, hshown⟩ := hshown
    have hu : u = d.count := by
      have hlt := of_decide_eq_false hend
      omega
    subst hu
    rw [← List.map_eq_flatMap] at hshown
    simpa [CStrings.runTranslating, Data.endIndex] using hshown
  · intro k t s _ _ hn
    obtain ⟨hlt, hle, hlen, hspan⟩ := nextCString_piece hn
    refine ⟨hle, ?_, ?_⟩
    · simp only [Field.translation_shows, Field.translation_bytesCount, hlen, hspan]
    · simp only [Shown, Field.translation_bytesCount, hlen]
      omega

end Mocha
