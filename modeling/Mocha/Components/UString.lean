import Mocha.Models.Translations

/-!
# UTF-16 string sections (`UStringComponent.swift`)

`runInitializing` reports a string at every zero unit, from the unit after the last reported string
on. A zero unit right there is skipped without moving that start, so the next string reported begins
with it. `Cuts d s ps` is what it reports from the unit `s` on.

* **`initUStrings_runs_iff`**: the strings are the runs of units before a zero unit iff no zero unit
  that begins the data or follows another one has a zero unit after it.
* **`uString_ranges_iff`**: the ranges are recomputed from the lengths of the strings, without the zero
  units between them; they are right iff at most one string is reported.
-/

namespace Mocha

open Lib Data

/-- `UStringPosition`. -/
structure UStringPosition where
  relativeStartOffset : Nat
  length : Nat
  deriving DecidableEq

/-- The loop of `runInitializing` over the units from `index` on. `start` is `indexOfLastNull + 2`,
which a NUL right at `start` does not move. -/
def uStringLoop (d : Data) (start index : Nat) : Nat → Run (List UStringPosition)
  | 0 => .ok []
  | n + 1 => do
    let curNullIndex := index * 2
    let utf16UnitValue ← (← d.subSequence curNullIndex 2).uint16
    if utf16UnitValue.value ≠ 0 then uStringLoop d start (index + 1) n
    else if curNullIndex - start = 0 then uStringLoop d start (index + 1) n
    else
      let rest ← uStringLoop d (curNullIndex + 2) (index + 1) n
      return ⟨start, curNullIndex - start⟩ :: rest

/-- `UStringComponent.runInitializing()`. -/
def initUStrings (d : Data) : Run (List UStringPosition) := uStringLoop d 0 0 (d.count / 2)

/-- The little-endian 16-bit units of a byte list of even length. -/
def utf16Units : List UInt8 → Option (List Nat)
  | [] => some []
  | [_] => none
  | a :: b :: bs => (utf16Units bs).map (leNat [a, b] :: ·)

/-- The characters of a list of UTF-16 units: surrogates must come in pairs. -/
def utf16Chars : List Nat → Option (List Char)
  | [] => some []
  | u :: us =>
    if u < 0xd800 ∨ 0xdfff < u then (utf16Chars us).map (Char.ofNat u :: ·)
    else match us with
      | [] => none
      | w :: ws =>
        if u ≤ 0xdbff ∧ 0xdc00 ≤ w ∧ w ≤ 0xdfff then
          (utf16Chars ws).map (Char.ofNat (0x10000 + (u - 0xd800) * 0x400 + (w - 0xdc00)) :: ·)
        else none

/-- `String(data: d, encoding: .utf16LittleEndian)`. -/
def Data.utf16String (d : Data) : Option String :=
  (utf16Units d.bytes).bind fun us => (utf16Chars us).map String.ofList

/-- The translation of one string of `runTranslating`. -/
def UStringPosition.translation (d : Data) (p : UStringPosition) : Run GeneralTranslation := do
  let string ← d.subSequence p.relativeStartOffset p.length
  let shown : Field (Option String) := ⟨string.utf16String, string.span⟩
  return match shown.value with
    | some s => shown.translation "UTF16-String" s p.length .utf16String
    | none =>
      shown.translation "Unable to decode" "🙅‍♂️ Invalid UTF16 String" p.length .utf16String

/-- `UStringComponent.runTranslating()`. -/
def translateUStrings (d : Data) (positions : List UStringPosition) : Run (List TranslationGroup) :=
  do return [← positions.mapM (UStringPosition.translation d)]

/-! ## What is reported -/

/-- The unit at index `i` is zero. -/
def ZeroUnit (d : Data) (i : Nat) : Prop :=
  i * 2 + 2 ≤ d.count ∧ (d.uint16At (i * 2)).value = 0

instance (d : Data) (i : Nat) : Decidable (ZeroUnit d i) := inferInstanceAs (Decidable (_ ∧ _))

/-- The strings reported from the unit `s` on. -/
inductive Cuts (d : Data) : Nat → List UStringPosition → Prop
  | nil {s : Nat} (hnone : ∀ i, s < i → ¬ ZeroUnit d i) : Cuts d s []
  | cons {s i : Nat} {ps : List UStringPosition} (hlt : s < i) (hzero : ZeroUnit d i)
      (hfirst : ∀ j, s < j → j < i → ¬ ZeroUnit d j) (hrest : Cuts d (i + 1) ps) :
      Cuts d s (⟨s * 2, i * 2 - s * 2⟩ :: ps)

/-- The loop, where no zero unit was met after `s`. -/
theorem uStringLoop_cuts {d : Data} : ∀ {n s index : Nat}, s ≤ index → (index + n) * 2 ≤ d.count →
    d.count < (index + n) * 2 + 2 → (∀ i, s < i → i < index → ¬ ZeroUnit d i) →
    ∃ ps, uStringLoop d (s * 2) index n = .ok ps ∧ Cuts d s ps
  | 0, s, index, _, _, hend, hnone => by
    refine ⟨[], rfl, .nil fun i hi hzero => ?_⟩
    have hlt := hzero.1
    exact hnone i hi (by omega) hzero
  | n + 1, s, index, hle, hfit, hend, hnone => by
    have hread : d.subSequence (index * 2) 2 = .ok (d.window (index * 2) 2) :=
      subSequence_ok (by decide) (by omega)
    have hunit : (d.window (index * 2) 2).uint16 = .ok (d.uint16At (index * 2)) :=
      uint16_window (by omega)
    rw [uStringLoop, hread, ok_bind, hunit, ok_bind]
    by_cases hzero : (d.uint16At (index * 2)).value = 0
    · by_cases hempty : index * 2 - s * 2 = 0
      · have hsame : index = s := by omega
        rw [if_neg (not_not_intro hzero), if_pos hempty]
        exact uStringLoop_cuts (by omega) (by omega) (by omega) fun i hi hi' => hnone i hi (by omega)
      · have hrest : ∃ ps, uStringLoop d ((index + 1) * 2) (index + 1) n = .ok ps ∧
            Cuts d (index + 1) ps :=
          uStringLoop_cuts (Nat.le_refl _) (by omega) (by omega) fun i hi hi' => absurd hi (by omega)
        obtain ⟨ps, hps, hcuts⟩ := hrest
        rw [if_neg (not_not_intro hzero), if_neg hempty, show index * 2 + 2 = (index + 1) * 2 by omega,
          hps]
        exact ⟨_, rfl, .cons (by omega) ⟨by omega, hzero⟩ hnone hcuts⟩
    · rw [if_pos hzero]
      refine uStringLoop_cuts (by omega) (by omega) (by omega) fun i hi hi' => ?_
      by_cases hsame : i = index
      · subst hsame
        exact fun h => hzero h.2
      · exact hnone i hi (by omega)

/-- **`runInitializing`** returns, with the strings `Cuts` says. -/
theorem initUStrings_cuts (d : Data) : ∃ ps, initUStrings d = .ok ps ∧ Cuts d 0 ps := by
  refine uStringLoop_cuts (Nat.le_refl 0) ?_ ?_ fun i _ hi => absurd hi (Nat.not_lt_zero i)
  · omega
  · omega

/-! ## Runs of units -/

/-- A run of units that are not zero, as long as it can be, before a zero unit. -/
def IsRun (d : Data) (p : UStringPosition) : Prop :=
  ∃ a b, p = ⟨a * 2, b * 2 - a * 2⟩ ∧ a < b ∧ ZeroUnit d b ∧
    (∀ i, a ≤ i → i < b → ¬ ZeroUnit d i) ∧ (a = 0 ∨ ZeroUnit d (a - 1))

/-- The runs from the unit `s` on, in order. -/
def RunsFrom (d : Data) (s : Nat) (ps : List UStringPosition) : Prop :=
  ps.Pairwise (fun p q => p.relativeStartOffset < q.relativeStartOffset) ∧
    ∀ p, p ∈ ps ↔ IsRun d p ∧ s * 2 ≤ p.relativeStartOffset

/-- From the unit `s` on, only the last zero unit may have none or another zero unit before it. -/
def ProperFrom (d : Data) (s : Nat) : Prop :=
  ∀ i j, s ≤ i → i < j → ZeroUnit d i → ZeroUnit d j → 0 < i ∧ ¬ ZeroUnit d (i - 1)

section Runs

variable {d : Data} {s i : Nat} {ps : List UStringPosition}

/-- The string from `s` to the next zero unit is a run unless it begins with a zero unit. -/
theorem isRun_first (hs : s = 0 ∨ ZeroUnit d (s - 1)) (hlt : s < i) (hzero : ZeroUnit d i)
    (hfirst : ∀ j, s < j → j < i → ¬ ZeroUnit d j) :
    IsRun d ⟨s * 2, i * 2 - s * 2⟩ ↔ ¬ ZeroUnit d s := by
  constructor
  · rintro ⟨a, b, hp, hab, -, hnone, -⟩
    obtain ⟨ha, -⟩ := UStringPosition.mk.inj hp
    have hsame : a = s := by omega
    subst hsame
    exact hnone a (Nat.le_refl a) hab
  · intro hother
    refine ⟨s, i, rfl, hlt, hzero, fun j hj hji => ?_, hs⟩
    by_cases hsame : j = s
    · exact hsame ▸ hother
    · exact hfirst j (by omega) hji

/-- The runs after a string are the runs from `s` on, without the one at `s`. -/
theorem isRun_after {p : UStringPosition} (hlt : s < i) (hzero : ZeroUnit d i)
    (hfirst : ∀ j, s < j → j < i → ¬ ZeroUnit d j) (hs : ¬ ZeroUnit d s) :
    IsRun d p ∧ s * 2 ≤ p.relativeStartOffset ↔
      (IsRun d p ∧ p = ⟨s * 2, i * 2 - s * 2⟩) ∨ (IsRun d p ∧ (i + 1) * 2 ≤ p.relativeStartOffset) := by
  constructor
  · rintro ⟨⟨a, b, rfl, hab, hb, hnone, ha⟩, hle⟩
    have hrun : IsRun d ⟨a * 2, b * 2 - a * 2⟩ := ⟨a, b, rfl, hab, hb, hnone, ha⟩
    change s * 2 ≤ a * 2 at hle
    by_cases hafter : i < a
    · refine .inr ⟨hrun, ?_⟩
      change (i + 1) * 2 ≤ a * 2
      omega
    · -- the run begins before the zero unit at `i`, so it begins at `s` and ends at `i`
      refine .inl ⟨hrun, ?_⟩
      have hai : a ≠ i := by
        rintro rfl
        exact hnone a (Nat.le_refl a) hab hzero
      have has : a = s := by
        by_contra hne
        rcases ha with rfl | hbefore
        · omega
        · by_cases hprev : a - 1 = s
          · exact hs (hprev ▸ hbefore)
          · exact hfirst (a - 1) (by omega) (by omega) hbefore
      subst has
      have hbi : b = i := by
        by_contra hne
        rcases Nat.lt_or_gt_of_ne hne with hbi | hib
        · exact hfirst b hab hbi hb
        · exact hnone i (by omega) hib hzero
      rw [hbi]
  · rintro (⟨hrun, rfl⟩ | ⟨hrun, hle⟩)
    · exact ⟨hrun, Nat.le_refl _⟩
    · exact ⟨hrun, by omega⟩

/-- The condition on the zero units, before and after a string that is a run. -/
theorem properFrom_after (hlt : s < i) (hzero : ZeroUnit d i)
    (hfirst : ∀ j, s < j → j < i → ¬ ZeroUnit d j) (hs : ¬ ZeroUnit d s) :
    ProperFrom d s ↔ ProperFrom d (i + 1) := by
  constructor
  · intro h j k hj
    exact h j k (by omega)
  · intro h j k hj hjk hzj hzk
    by_cases hafter : i < j
    · exact h j k hafter hjk hzj hzk
    · have hji : j = i := by
        by_contra hne
        by_cases hsame : j = s
        · exact hs (hsame ▸ hzj)
        · exact hfirst j (by omega) (by omega) hzj
      subst hji
      refine ⟨by omega, ?_⟩
      by_cases hprev : j - 1 = s
      · exact hprev ▸ hs
      · exact hfirst (j - 1) (by omega) (by omega)

/-- **The reported strings are the runs iff the zero units are proper**, from any unit on. -/
theorem Cuts.runsFrom_iff (h : Cuts d s ps) (hs : s = 0 ∨ ZeroUnit d (s - 1)) :
    RunsFrom d s ps ↔ ProperFrom d s := by
  induction h with
  | @nil s hnone =>
    refine iff_of_true ⟨.nil, fun p => iff_of_false List.not_mem_nil ?_⟩ ?_
    · rintro ⟨⟨a, b, rfl, hab, hb, -, -⟩, hle⟩
      change s * 2 ≤ a * 2 at hle
      exact hnone b (by omega) hb
    · intro i j hi hij _ hj
      exact absurd hj (hnone j (by omega))
  | @cons s i ps hlt hzero hfirst hrest ih =>
    have ih := ih (.inr hzero)
    have hrun := isRun_first hs hlt hzero hfirst
    by_cases hzs : ZeroUnit d s
    · refine iff_of_false ?_ ?_
      · rintro ⟨-, hmem⟩
        exact hrun.mp ((hmem _).mp List.mem_cons_self).1 hzs
      · intro hproper
        obtain ⟨hpos, hprev⟩ := hproper s i (Nat.le_refl s) hlt hzs hzero
        rcases hs with rfl | hbefore
        · exact Nat.lt_irrefl 0 hpos
        · exact hprev hbefore
    · have hrun := hrun.mpr hzs
      rw [properFrom_after hlt hzero hfirst hzs, ← ih]
      constructor
      · rintro ⟨hpairs, hmem⟩
        obtain ⟨hfirsts, hpairs⟩ := List.pairwise_cons.mp hpairs
        refine ⟨hpairs, fun p => ⟨fun hp => ?_, fun hp => ?_⟩⟩
        · have hall := (hmem p).mp (List.mem_cons_of_mem _ hp)
          rcases (isRun_after hlt hzero hfirst hzs).mp hall with ⟨-, rfl⟩ | hafter
          · exact absurd (hfirsts _ hp) (Nat.lt_irrefl _)
          · exact hafter
        · have hall := (hmem p).mpr ((isRun_after hlt hzero hfirst hzs).mpr (.inr hp))
          rcases List.mem_cons.mp hall with rfl | hmem
          · have hle := hp.2
            change (i + 1) * 2 ≤ s * 2 at hle
            omega
          · exact hmem
      · rintro ⟨hpairs, hmem⟩
        refine ⟨.cons (fun p hp => ?_) hpairs, fun p => ?_⟩
        · have hle := ((hmem p).mp hp).2
          change s * 2 < _
          omega
        · rw [List.mem_cons, isRun_after hlt hzero hfirst hzs, hmem]
          constructor
          · rintro (rfl | hp)
            · exact .inl ⟨hrun, rfl⟩
            · exact .inr hp
          · rintro (⟨-, hp⟩ | hp)
            · exact .inl hp
            · exact .inr hp

end Runs

/-- **When the reported strings are the runs.** `runInitializing` returns for every data. What it
reports is the list of all runs of units that are not zero before a zero unit, in order, iff every zero
unit with another one after it has a unit before it that is not zero. -/
theorem initUStrings_runs_iff (d : Data) :
    ∃ ps, initUStrings d = .ok ps ∧
      (ps.Pairwise (fun p q => p.relativeStartOffset < q.relativeStartOffset) ∧
          (∀ p, p ∈ ps ↔ IsRun d p) ↔
        ∀ i j, i < j → ZeroUnit d i → ZeroUnit d j → 0 < i ∧ ¬ ZeroUnit d (i - 1)) := by
  obtain ⟨ps, hps, hcuts⟩ := initUStrings_cuts d
  refine ⟨ps, hps, ?_⟩
  have hiff := hcuts.runsFrom_iff (.inl rfl)
  unfold RunsFrom ProperFrom at hiff
  simpa using hiff

/-- The string `a` after a zero unit. -/
def leadingZeroUnit : Data := ⟨0, [0, 0, 0x61, 0, 0, 0]⟩

/-- The string is reported from the zero unit before it on. -/
theorem leadingZeroUnit_misread :
    initUStrings leadingZeroUnit = .ok [⟨0, 4⟩] ∧ ZeroUnit leadingZeroUnit 0 ∧
      IsRun leadingZeroUnit ⟨2, 2⟩ ∧ ¬ IsRun leadingZeroUnit ⟨0, 4⟩ := by
  have hfirst : ZeroUnit leadingZeroUnit 0 := by decide
  refine ⟨by decide +kernel, hfirst, ⟨1, 2, rfl, by decide, by decide, ?_, .inr hfirst⟩, ?_⟩
  · intro i hi hlt
    obtain rfl : i = 1 := by omega
    decide
  · rintro ⟨a, b, hp, hab, -, hnone, -⟩
    obtain ⟨ha, -⟩ := UStringPosition.mk.inj hp
    exact hnone 0 (by omega) (by omega) hfirst

/-! ## Ranges -/

/-- A string is shown with its own bytes and length. -/
theorem uString_translation {d : Data} {p : UStringPosition} (hpos : 0 < p.length)
    (hfit : p.relativeStartOffset + p.length ≤ d.count) :
    ∃ t, p.translation d = .ok t ∧ t.bytesCount = p.length := by
  unfold UStringPosition.translation
  rw [subSequence_ok hpos hfit, ok_bind]
  refine ⟨_, rfl, ?_⟩
  split <;> rfl

theorem Cuts.fits {d : Data} {s : Nat} {ps : List UStringPosition} (h : Cuts d s ps) :
    ∀ p ∈ ps, 0 < p.length ∧ p.relativeStartOffset + p.length ≤ d.count := by
  induction h with
  | nil => nofun
  | @cons s i ps hlt hzero hfirst hrest ih =>
    intro p hp
    rcases List.mem_cons.mp hp with rfl | hp
    · have hle := hzero.1
      change 0 < i * 2 - s * 2 ∧ s * 2 + (i * 2 - s * 2) ≤ d.count
      omega
    · exact ih p hp

/-- `runTranslating` returns a line for each string, with its length. -/
theorem translateUStrings_eq_ok {d : Data} {ps : List UStringPosition}
    (h : ∀ p ∈ ps, 0 < p.length ∧ p.relativeStartOffset + p.length ≤ d.count) :
    ∃ ts, translateUStrings d ps = .ok [ts] ∧
      ts.map GeneralTranslation.bytesCount = ps.map UStringPosition.length := by
  obtain ⟨ts, hts, hall⟩ := mapM_total fun p hp => uString_translation (h p hp).1 (h p hp).2
  refine ⟨ts, ?_, ?_⟩
  · unfold translateUStrings
    rw [hts]
    rfl
  · rw [← List.forall₂_eq_eq_eq, List.forall₂_map_left_iff, List.forall₂_map_right_iff]
    exact hall.flip

/-- Each line has the range of its string. -/
def RangesOfStrings (d : Data) (ps : List UStringPosition) (gs : List TranslationGroup) : Prop :=
  gs.flatten.map GeneralTranslation.dataRangeInMacho =
    ps.map fun p => some (Span.of (d.startIndex + p.relativeStartOffset) p.length)

section Ranges

variable {d : Data} {ps : List UStringPosition}

/-- The lengths laid out are the strings iff there is at most one. -/
theorem Cuts.layOut_iff (h : Cuts d 0 ps) (a : Nat) :
    layOut a (ps.map UStringPosition.length) =
      ps.map (fun p => Span.of (a + p.relativeStartOffset) p.length) ↔ ps.length ≤ 1 := by
  cases h with
  | nil => exact iff_of_true rfl (Nat.zero_le 1)
  | @cons _ i ps hlt hzero hfirst hrest =>
    cases hrest with
    | nil =>
      refine iff_of_true ?_ (Nat.le_refl 1)
      simp [layOut]
    | @cons _ j ps =>
      -- the zero unit at `i` is counted in no length
      refine iff_of_false ?_ (by simp)
      intro heq
      simp only [List.map_cons, layOut, List.cons.injEq, Span.of, Span.mk.injEq] at heq
      omega

/-- At most one string is reported iff two zero units after the first unit are neighbours. -/
theorem Cuts.length_le_one_iff (h : Cuts d 0 ps) :
    ps.length ≤ 1 ↔ ∀ i j, 0 < i → i < j → ZeroUnit d i → ZeroUnit d j → j = i + 1 := by
  cases h with
  | nil hnone =>
    refine iff_of_true (Nat.zero_le 1) ?_
    intro i j hi _ hzi
    exact absurd hzi (hnone i hi)
  | @cons _ i ps hlt hzero hfirst hrest =>
    cases hrest with
    | nil hnone =>
      refine iff_of_true (Nat.le_refl 1) ?_
      intro a b ha hab hza hzb
      have hia : i ≤ a := by
        by_contra hai
        exact hfirst a ha (by omega) hza
      have hbi : b ≤ i + 1 := by
        by_contra hib
        exact hnone b (by omega) hzb
      omega
    | @cons _ j ps hlt' hzero' hfirst' hrest' =>
      refine iff_of_false (by simp) ?_
      intro hcond
      have hnext := hcond i j hlt (by omega) hzero hzero'
      omega

end Ranges

/-- **When the ranges are those of the strings.** For every data, `runInitializing` and
`runTranslating` return; the fixed range of each line is the interval of its string iff any two zero
units after the first unit are neighbours, so that at most one string is reported. -/
theorem uString_ranges_iff (d : Data) :
    ∃ ps gs, initUStrings d = .ok ps ∧ translateUStrings d ps = .ok gs ∧
      (RangesOfStrings d ps (fixTranslationDataRange d.startIndex gs) ↔
        ∀ i j, 0 < i → i < j → ZeroUnit d i → ZeroUnit d j → j = i + 1) := by
  obtain ⟨ps, hps, hcuts⟩ := initUStrings_cuts d
  obtain ⟨ts, hts, hcounts⟩ := translateUStrings_eq_ok hcuts.fits
  refine ⟨ps, [ts], hps, hts, ?_⟩
  have hsome : (ps.map fun p => some (Span.of (d.startIndex + p.relativeStartOffset) p.length)) =
      (ps.map fun p => Span.of (d.startIndex + p.relativeStartOffset) p.length).map some :=
    List.map_map.symm
  rw [← hcuts.length_le_one_iff, ← hcuts.layOut_iff d.startIndex, RangesOfStrings, fix_ranges,
    List.flatten_singleton, hcounts, hsome, List.map_inj_right fun _ _ => Option.some.inj]

/-- The strings `a` and `b`. -/
def twoUStrings : Data := ⟨0, [0x61, 0, 0, 0, 0x62, 0, 0, 0]⟩

/-- The second string is at 4, and its range at 2. -/
theorem twoUStrings_misplaced :
    ∃ gs, initUStrings twoUStrings = .ok [⟨0, 2⟩, ⟨4, 2⟩] ∧
      translateUStrings twoUStrings [⟨0, 2⟩, ⟨4, 2⟩] = .ok gs ∧
      ranges (fixTranslationDataRange 0 gs) = [⟨0, 2⟩, ⟨2, 4⟩] ∧
      ¬ RangesOfStrings twoUStrings [⟨0, 2⟩, ⟨4, 2⟩] (fixTranslationDataRange 0 gs) := by
  obtain ⟨ts, hts, hcounts⟩ := @translateUStrings_eq_ok twoUStrings [⟨0, 2⟩, ⟨4, 2⟩] (by decide)
  refine ⟨[ts], by decide +kernel, hts, ?_, ?_⟩
  · rw [ranges_fix, List.flatten_singleton, hcounts]
    rfl
  · rw [RangesOfStrings, fix_ranges, List.flatten_singleton, hcounts]
    decide

end Mocha
