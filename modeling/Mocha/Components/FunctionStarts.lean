import Mocha.Components.Symbols
import Mocha.Helpers.InterpreterUtils
import Mocha.Helpers.Layout

/-!
# Function starts (`FunctionStartsComponent.swift`)

The data is a list of LEB128 deltas, decoded by the constructor. Each function is shown with the
names of the symbols at its address, which `translation(for:)` reads from the symbol table.

`functionStarts_shown`: the deltas, in order, are the data.

In the format a zero byte ends the list, and more of them fill up the data. The constructor decodes to
the end of the data, so each of these bytes is a delta of zero:

**`functionStarts_terminated`**: every terminated list is read with its last address again for each
zero byte behind it.
-/

namespace Mocha

open Lib Data

/-- `FunctionStart`. -/
structure FunctionStart where
  startOffset : Nat
  byteLength : Nat
  address : UInt64
  deriving DecidableEq

/-- One turn of the outer loop of `FunctionStartsComponent.init`, on `index` and `address`. -/
def nextFunctionStart (d : Data) (s : Nat × UInt64) :
    Run (Field FunctionStart × (Nat × UInt64)) := do
  let leb ← readLEB d s.1
  let address ← plus s.2 leb.delta
  let byteLength := leb.index - s.1
  return (⟨⟨s.1, byteLength, address⟩, Span.of (d.startIndex + s.1) byteLength⟩,
    (leb.index, address))

/-- A turn moves on by the length of the delta it read. -/
theorem nextFunctionStart_piece {d : Data} {s t : Nat × UInt64} {x : Field FunctionStart}
    (h : nextFunctionStart d s = .ok (x, t)) :
    s.1 < t.1 ∧ t.1 ≤ d.count ∧ x.value.byteLength = t.1 - s.1 ∧
      x.span = Span.of (d.startIndex + s.1) (t.1 - s.1) := by
  unfold nextFunctionStart at h
  rw [bind_eq_ok] at h
  obtain ⟨leb, hleb, h⟩ := h
  rw [bind_eq_ok] at h
  obtain ⟨address, _, h⟩ := h
  cases h
  obtain ⟨bs, hholds, hrun, _, rfl⟩ := readLEB_eq_ok.mp hleb
  have hpos := hrun.length_pos
  have hle := hholds.1
  exact ⟨by simp only; omega, hle, rfl, rfl⟩

/-- `while index < data.count { … }`. -/
def functionStartsLoop (d : Data) : Loop Trap (Nat × UInt64) (Field FunctionStart) where
  more s := decide (s.1 < d.count)
  next := nextFunctionStart d
  rank s := d.count - s.1
  lowers hm hn := by
    obtain ⟨hlt, hle, _⟩ := nextFunctionStart_piece hn
    have hk := of_decide_eq_true hm
    omega

/-- `functionStarts`, as the constructor computes it. -/
def functionStarts (d : Data) : Run (List (Field FunctionStart)) := do
  let (starts, _) ← (functionStartsLoop d).run (0, 0)
  return starts

/-- The names of the `.section` symbols at an address, put together. -/
def MachoView.functionName (v : MachoView) (functionVirtualAddress : UInt64) : Run String :=
  match v.symbolTable with
  | none => .ok ""
  | some t => do
    let entries ← t.findSymbolBy functionVirtualAddress
    let named := entries.filter fun e => e.symbolType.value = .section_
    return String.join (named.map SymbolTableEntry.symbolName)

/-- `translation(for:)`. -/
def functionTranslation (textSegmentVirtualAddress : UInt64) (v : MachoView)
    (f : Field FunctionStart) : Run GeneralTranslation := do
  let functionVirtualAddress ← plus f.value.address textSegmentVirtualAddress
  let symbolName ← v.functionName functionVirtualAddress
  return (f.translation "Vitual Address" (hex functionVirtualAddress.toNat) f.value.byteLength
    .uleb128).extra (some "Referred Symbol Name") (some symbolName)

/-- `FunctionStartsComponent.runTranslating()`. -/
def translateFunctionStarts (textSegmentVirtualAddress : UInt64) (v : MachoView)
    (starts : List (Field FunctionStart)) : Run (List TranslationGroup) := do
  return [← starts.mapM (functionTranslation textSegmentVirtualAddress v)]

theorem functionTranslation_shows {a : UInt64} {v : MachoView} {f : Field FunctionStart}
    {t : GeneralTranslation} (h : functionTranslation a v f = .ok t) :
    t.shows = f.span ∧ t.bytesCount = f.value.byteLength := by
  unfold functionTranslation at h
  rw [bind_eq_ok] at h
  obtain ⟨address, _, h⟩ := h
  rw [bind_eq_ok] at h
  obtain ⟨symbolName, _, h⟩ := h
  cases h
  exact ⟨rfl, rfl⟩

/-- **The deltas are the data.** -/
theorem functionStarts_shown {a : UInt64} {v : MachoView} {d : Data}
    {starts : List (Field FunctionStart)} {gs : List TranslationGroup}
    (h : functionStarts d = .ok starts) (hgs : translateFunctionStarts a v starts = .ok gs) :
    Shown d.startIndex d.endIndex gs.flatten := by
  unfold functionStarts at h
  rw [bind_eq_ok] at h
  obtain ⟨⟨_, u⟩, hrun, h⟩ := h
  cases h
  unfold translateFunctionStarts at hgs
  rw [bind_eq_ok] at hgs
  obtain ⟨ts, hts, hgs⟩ := hgs
  cases hgs
  obtain ⟨hturns, hend⟩ := Loop.run_eq_ok_iff.mp hrun
  have hshown := shown_turns (I := fun s => s.1 ≤ d.count) (p := fun s => d.startIndex + s.1)
    (f := fun x : Field FunctionStart => [x.translation "" "" x.value.byteLength .uleb128]) ?_
    hturns (Nat.zero_le _)
  · obtain ⟨hle, hshown⟩ := hshown
    have hu : u.1 = d.count := by
      have hlt := of_decide_eq_false hend
      omega
    rw [hu, ← List.map_eq_flatMap] at hshown
    rw [List.flatten_cons, List.flatten_nil, List.append_nil]
    refine hshown.congr (List.forall₂_map_left_iff.mpr ((mapM_eq_ok.mp hts).imp ?_))
    intro f t ht
    exact functionTranslation_shows ht
  · intro s t x _ _ hn
    obtain ⟨hlt, hle, hlen, hspan⟩ := nextFunctionStart_piece hn
    refine ⟨hle, ?_, ?_⟩
    · simp only [Field.translation_shows, Field.translation_bytesCount, hlen, hspan]
    · simp only [Shown, Field.translation_bytesCount, hlen]
      omega

/-! ## Decoding an encoded list -/

/-- `bytes` gives the numbers that follow `last`, each by its difference from the one before. -/
inductive Deltas : UInt64 → List UInt64 → List UInt8 → Prop
  | nil (last : UInt64) : Deltas last [] []
  | cons {last offset : UInt64} {offsets : List UInt64} (bs : List UInt8) {bytes : List UInt8}
      (hle : last ≤ offset) (hleb : IsLeb bs) (hlength : 7 * bs.length < 2 ^ 32)
      (hvalue : lebNat bs = offset.toNat - last.toNat) (hrest : Deltas offset offsets bytes) :
      Deltas last (offset :: offsets) (bs ++ bytes)

namespace Deltas

theorem append {last : UInt64} {offsets others : List UInt64} {bytes more : List UInt8}
    (h : Deltas last offsets bytes) (hmore : Deltas (offsets.getLastD last) others more) :
    Deltas last (offsets ++ others) (bytes ++ more) := by
  induction h with
  | nil last => exact hmore
  | cons bs hle hleb hlength hvalue _ ih =>
    rw [List.getLastD_cons] at hmore
    rw [List.cons_append, List.append_assoc]
    exact .cons bs hle hleb hlength hvalue (ih hmore)

/-- Zero bytes repeat the number before them. -/
theorem zeros (last : UInt64) (n : Nat) : Deltas last (List.replicate n last) (List.replicate n 0) := by
  induction n with
  | zero => exact .nil last
  | succ n ih =>
    exact .cons [0] (UInt64.le_refl last) (.last rfl) (by decide) (Nat.sub_self _).symm ih

end Deltas

theorem plus_delta {a b : UInt64} {n : Nat} (hle : a ≤ b) (hn : n = b.toNat - a.toNat) :
    plus a (UInt64.ofNat n) = .ok b := by
  have hle' : a.toNat ≤ b.toNat := hle
  have hlt := b.toNat_lt
  have hvalue : (UInt64.ofNat n).toNat = n := UInt64.toNat_ofNat_of_lt (Nat.lt_of_le_of_lt (by omega) hlt)
  unfold plus
  rw [hvalue, if_pos (by omega)]
  congr 1
  apply UInt64.toNat_inj.mp
  rw [UInt64.toNat_add, hvalue, Nat.mod_eq_of_lt (by omega)]
  omega

/-- The turns of the loop over an encoded list. -/
theorem functionStarts_turns {d : Data} {last : UInt64} {offsets : List UInt64} {bytes : List UInt8}
    (h : Deltas last offsets bytes) : ∀ {k : Nat}, d.Holds k bytes → ∃ starts,
      (functionStartsLoop d).Turns (k, last) starts (k + bytes.length, offsets.getLastD last) ∧
        starts.map (fun f => f.value.address) = offsets := by
  induction h with
  | nil last =>
    intro k _
    exact ⟨[], .nil _, rfl⟩
  | @cons last offset offsets bs bytes hle hleb hlength hvalue _ ih =>
    intro k hk
    obtain ⟨hhead, htail⟩ := holds_append.mp hk
    obtain ⟨starts, hturns, haddresses⟩ := ih htail
    have hread := readLEB_eq_ok.mpr ⟨bs, hhead, hleb, hlength, rfl⟩
    have hnext : nextFunctionStart d (k, last) = .ok (⟨⟨k, k + bs.length - k, offset⟩,
        Span.of (d.startIndex + k) (k + bs.length - k)⟩, (k + bs.length, offset)) := by
      unfold nextFunctionStart
      simp only [hread, ok_bind, plus_delta hle hvalue, pure_eq_ok]
    have hmore : k < d.count := by
      have hinside := hhead.1
      have hpos := hleb.length_pos
      omega
    rw [List.length_append, ← Nat.add_assoc, List.getLastD_cons]
    refine ⟨_, .cons (decide_eq_true hmore) hnext hturns, ?_⟩
    rw [List.map_cons, haddresses]

/-- The constructor reads an encoded list to the end of the data. -/
theorem functionStarts_decode {d : Data} {offsets : List UInt64} (h : Deltas 0 offsets d.bytes) :
    ∃ starts, functionStarts d = .ok starts ∧ starts.map (fun f => f.value.address) = offsets := by
  obtain ⟨starts, hturns, haddresses⟩ := functionStarts_turns h (k := 0) (holds_of_eq rfl)
  refine ⟨starts, ?_, haddresses⟩
  have hend : (functionStartsLoop d).more (0 + d.bytes.length, offsets.getLastD 0) = false := by
    simp [functionStartsLoop, Data.count]
  unfold functionStarts
  rw [Loop.run_eq_ok_iff.mpr ⟨hturns, hend⟩]
  rfl

/-- The addresses of `functionStarts` are the offsets. -/
def FunctionStartsExact (d : Data) (offsets : List UInt64) : Prop :=
  ∃ starts, functionStarts d = .ok starts ∧ starts.map (fun f => f.value.address) = offsets

/-- **A terminated list is never read exactly**: every zero byte behind it repeats its last address. -/
theorem functionStarts_terminated {d : Data} {offsets : List UInt64} {bytes : List UInt8} {pad : Nat}
    (h : Deltas 0 offsets bytes) (hd : d.bytes = bytes ++ List.replicate (pad + 1) 0) :
    FunctionStartsExact d (offsets ++ List.replicate (pad + 1) (offsets.getLastD 0)) ∧
      ¬ FunctionStartsExact d offsets := by
  obtain ⟨starts, hstarts, haddresses⟩ := functionStarts_decode (d := d)
    (hd ▸ h.append (Deltas.zeros _ (pad + 1)))
  refine ⟨⟨starts, hstarts, haddresses⟩, ?_⟩
  rintro ⟨starts', hstarts', haddresses'⟩
  cases hstarts.symm.trans hstarts'
  rw [haddresses] at haddresses'
  have hlength := congrArg List.length haddresses'
  simp at hlength

/-- Functions at 16 and 32, and the zero byte behind them. -/
def twoStarts : Data := ⟨0, [0x10, 0x10, 0x00]⟩

theorem twoStarts_deltas : Deltas 0 [16, 32] [0x10, 0x10] :=
  .cons [0x10] (by decide) (.last rfl) (by decide) rfl
    (.cons [0x10] (by decide) (.last rfl) (by decide) rfl (.nil _))

theorem functionStarts_terminated_twoStarts :
    FunctionStartsExact twoStarts [16, 32, 32] ∧ ¬ FunctionStartsExact twoStarts [16, 32] :=
  functionStarts_terminated twoStarts_deltas
    (show twoStarts.bytes = [0x10, 0x10] ++ List.replicate (0 + 1) 0 from rfl)

/-- The zero byte is a third function. -/
theorem twoStarts_misread : Deltas 0 [16, 32] [0x10, 0x10] ∧
    twoStarts.bytes = [0x10, 0x10] ++ List.replicate 1 0 ∧
    (functionStarts twoStarts).map (fun fs => fs.map fun f => f.value.address) = .ok [16, 32, 32] ∧
    ¬ FunctionStartsExact twoStarts [16, 32] := by
  have hread : (functionStarts twoStarts).map (fun fs => fs.map fun f => f.value.address) =
      .ok [16, 32, 32] := by decide +kernel
  refine ⟨twoStarts_deltas, rfl, hread, ?_⟩
  rintro ⟨starts, hstarts, haddresses⟩
  rw [hstarts] at hread
  change Except.ok (starts.map fun f => f.value.address) = _ at hread
  rw [haddresses] at hread
  cases hread

end Mocha
