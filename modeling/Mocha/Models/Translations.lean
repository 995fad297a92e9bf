import Mocha.Helpers.Text

/-!
# Translations and their ranges (`Models/Translations.swift`, `MachoComponent.fixTranslationDataRange`)

A translation is one line of the explanation list: a text and a byte count. A component builds its
translations in groups, from the fields it decoded earlier, and each byte count is a constant or a
length written beside the text. `fixTranslationDataRange` then gives every translation a file range
by adding up the byte counts from `offsetInMacho` on. Nothing in the source ties that range to the
bytes the shown field came from.

`shows` is that tie, kept only here: the interval the shown field was read from (`Field.span`).
**`tiledBy_of_shown`** is the rule every component's ranges are derived from: if the fields were
read one after another over the component, in display order, and every byte count is the length of
what its field was read from (`Shown`), then the fixed ranges tile the component and each one is its
field's interval.
-/

namespace Mocha

open Lib

/-- `TranslationDataType`. -/
inductive TranslationDataType where
  | uint8
  | uint16
  | uint32
  | uint64
  | int8
  | int16
  | int32
  | int64
  | versionString
  | numberEnum
  | utf8String
  | utf16String
  | rawData
  | uleb
  | uleb128
  | flags
  | code
  deriving DecidableEq, Repr

/-- `GeneralTranslation`. -/
structure GeneralTranslation where
  definition : Option String
  humanReadable : String
  bytesCount : Nat
  translationType : TranslationDataType
  extraDefinition : Option String
  extraHumanReadable : Option String
  /-- set by `fixTranslationDataRange` -/
  dataRangeInMacho : Option Span
  /-- the bytes the shown field was read from; not in the source -/
  shows : Span
  deriving DecidableEq, Repr

/-- `TranslationGroup`. -/
abbrev TranslationGroup := List GeneralTranslation

/-- `GeneralTranslation(definition:humanReadable:bytesCount:translationType:)` showing the field
`f`. -/
def Field.translation {α : Type} (f : Field α) (definition humanReadable : String)
    (bytesCount : Nat) (translationType : TranslationDataType) : GeneralTranslation :=
  ⟨some definition, humanReadable, bytesCount, translationType, none, none, none, f.span⟩

/-- The same with `extraDefinition:` and `extraHumanReadable:`. -/
def GeneralTranslation.extra (t : GeneralTranslation) (extraDefinition : Option String)
    (extraHumanReadable : Option String) : GeneralTranslation :=
  { t with extraDefinition, extraHumanReadable }

@[simp] theorem Field.translation_shows {α : Type} (f : Field α) (definition humanReadable : String)
    (bytesCount : Nat) (type : TranslationDataType) :
    (f.translation definition humanReadable bytesCount type).shows = f.span := rfl

@[simp] theorem Field.translation_bytesCount {α : Type} (f : Field α)
    (definition humanReadable : String) (bytesCount : Nat) (type : TranslationDataType) :
    (f.translation definition humanReadable bytesCount type).bytesCount = bytesCount := rfl

@[simp] theorem GeneralTranslation.extra_shows (t : GeneralTranslation) (d h : Option String) :
    (t.extra d h).shows = t.shows := rfl

@[simp] theorem GeneralTranslation.extra_bytesCount (t : GeneralTranslation)
    (d h : Option String) : (t.extra d h).bytesCount = t.bytesCount := rfl

/-- The inner loop of `fixTranslationDataRange`, with the offset it leaves. -/
def fixGroup : Nat → TranslationGroup → TranslationGroup × Nat
  | current, [] => ([], current)
  | current, t :: ts =>
    let r := fixGroup (current + t.bytesCount) ts
    ({ t with dataRangeInMacho := some (Span.of current t.bytesCount) } :: r.1, r.2)

/-- `fixTranslationDataRange`, from `currentOffsetInMacho` on. -/
def fixTranslationDataRange : Nat → List TranslationGroup → List TranslationGroup
  | _, [] => []
  | current, g :: gs =>
    let r := fixGroup current g
    r.1 :: fixTranslationDataRange r.2 gs

/-- The ranges of a list of groups, in group order. -/
def ranges (gs : List TranslationGroup) : List Span :=
  gs.flatten.filterMap GeneralTranslation.dataRangeInMacho

/-- The ranges start at `a`, each begins where the previous one ends, the last one ends at `b`, and
each is the interval the field shown there was read from. -/
structure TiledBy (a b : Nat) (gs : List TranslationGroup) : Prop where
  tiles : Tiles a b (ranges gs)
  shown : ∀ t ∈ gs.flatten, t.dataRangeInMacho = some t.shows

/-! ## The fixed ranges are the layout of the byte counts -/

theorem fixGroup_snd : ∀ (current : Nat) (g : TranslationGroup),
    (fixGroup current g).2 = current + (g.map GeneralTranslation.bytesCount).sum
  | _, [] => rfl
  | current, t :: ts => by
    rw [fixGroup, List.map_cons, List.sum_cons, ← Nat.add_assoc]
    exact fixGroup_snd _ ts

theorem fixGroup_ranges : ∀ (current : Nat) (g : TranslationGroup),
    (fixGroup current g).1.map GeneralTranslation.dataRangeInMacho =
      (layOut current (g.map GeneralTranslation.bytesCount)).map some
  | _, [] => rfl
  | current, t :: ts => by
    rw [fixGroup, List.map_cons, List.map_cons, layOut, List.map_cons]
    exact congrArg _ (fixGroup_ranges _ ts)

/-- Only the range is set. -/
theorem fixGroup_map {α : Type} {f : GeneralTranslation → α}
    (hf : ∀ t r, f { t with dataRangeInMacho := r } = f t) :
    ∀ (current : Nat) (g : TranslationGroup), (fixGroup current g).1.map f = g.map f
  | _, [] => rfl
  | current, t :: ts => by
    rw [fixGroup, List.map_cons, List.map_cons, hf]
    exact congrArg _ (fixGroup_map hf _ ts)

/-- The range of the `k`-th translation of a group: it begins behind those before it. -/
theorem fixGroup_getElem? : ∀ (g : TranslationGroup) (current k : Nat),
    (fixGroup current g).1[k]? = g[k]?.map fun t => { t with
      dataRangeInMacho := some (Span.of
        (current + ((g.take k).map GeneralTranslation.bytesCount).sum) t.bytesCount) }
  | [], _, _ => rfl
  | t :: ts, current, 0 => rfl
  | t :: ts, current, k + 1 => by
    rw [fixGroup, List.getElem?_cons_succ, List.getElem?_cons_succ, fixGroup_getElem? ts,
      List.take_succ_cons, List.map_cons, List.sum_cons, Nat.add_assoc]

/-- **The fixed ranges are the prefix sums of the byte counts.** -/
theorem fix_ranges : ∀ (current : Nat) (gs : List TranslationGroup),
    (fixTranslationDataRange current gs).flatten.map GeneralTranslation.dataRangeInMacho =
      (layOut current (gs.flatten.map GeneralTranslation.bytesCount)).map some
  | _, [] => rfl
  | current, g :: gs => by
    rw [fixTranslationDataRange, List.flatten_cons, List.flatten_cons, List.map_append,
      List.map_append, layOut_append, List.map_append, fixGroup_ranges, fix_ranges, fixGroup_snd]

theorem fix_map {α : Type} {f : GeneralTranslation → α}
    (hf : ∀ t r, f { t with dataRangeInMacho := r } = f t) :
    ∀ (current : Nat) (gs : List TranslationGroup),
      (fixTranslationDataRange current gs).flatten.map f = gs.flatten.map f
  | _, [] => rfl
  | current, g :: gs => by
    rw [fixTranslationDataRange, List.flatten_cons, List.flatten_cons, List.map_append,
      List.map_append, fixGroup_map hf, fix_map hf]

/-- A fixed translation is the translation with a range. -/
theorem fix_getElem? {gs : List TranslationGroup} {i : Nat} {t : GeneralTranslation}
    (h : gs.flatten[i]? = some t) (current : Nat) :
    ∃ r, (fixTranslationDataRange current gs).flatten[i]? = some { t with dataRangeInMacho := r } := by
  have hmap := congrArg (fun l => l[i]?) (fix_map
    (f := fun t => { t with dataRangeInMacho := none }) (fun _ _ => rfl) current gs)
  simp only [List.getElem?_map, h, Option.map_some, Option.map_eq_some_iff] at hmap
  obtain ⟨t', ht', heq⟩ := hmap
  exact ⟨t'.dataRangeInMacho, ht'.trans
    (congrArg (fun u => some { u with dataRangeInMacho := t'.dataRangeInMacho }) heq)⟩

theorem fix_shows (current : Nat) (gs : List TranslationGroup) :
    (fixTranslationDataRange current gs).flatten.map GeneralTranslation.shows =
      gs.flatten.map GeneralTranslation.shows :=
  fix_map (fun _ _ => rfl) current gs

theorem ranges_fix (current : Nat) (gs : List TranslationGroup) :
    ranges (fixTranslationDataRange current gs) =
      layOut current (gs.flatten.map GeneralTranslation.bytesCount) := by
  have h : ∀ l : List GeneralTranslation, l.filterMap GeneralTranslation.dataRangeInMacho =
      (l.map GeneralTranslation.dataRangeInMacho).filterMap id := by
    intro l
    rw [List.filterMap_map]
    rfl
  rw [ranges, h, fix_ranges, List.filterMap_map]
  exact List.filterMap_some

/-! ## Ranges from reads -/

/-- The fields shown by `ts` were read one after another from `[a, b)`, and every byte count is the
length of what its field was read from. -/
def Shown : Nat → Nat → List GeneralTranslation → Prop
  | a, b, [] => a = b
  | a, b, t :: ts => t.shows = Span.of a t.bytesCount ∧ Shown (a + t.bytesCount) b ts

theorem shown_nil {a b : Nat} : Shown a b [] ↔ a = b := Iff.rfl

theorem shown_cons {a b : Nat} {t : GeneralTranslation} {ts : List GeneralTranslation} :
    Shown a b (t :: ts) ↔ t.shows = Span.of a t.bytesCount ∧ Shown (a + t.bytesCount) b ts :=
  Iff.rfl

theorem Shown.append : ∀ {a b c : Nat} {ts us : List GeneralTranslation}, Shown a b ts →
    Shown b c us → Shown a c (ts ++ us)
  | _, _, _, [], _, h, h' => by
    rw [shown_nil] at h
    exact h ▸ h'
  | _, _, _, _ :: _, _, h, h' => ⟨h.1, Shown.append h.2 h'⟩

theorem Shown.tiles : ∀ {a b : Nat} {ts : List GeneralTranslation}, Shown a b ts →
    Tiles a b (ts.map GeneralTranslation.shows)
  | _, _, [], h => h
  | _, _, t :: ts, h => by
    rw [List.map_cons, h.1]
    exact tiles_cons h.2.tiles

theorem Shown.widths : ∀ {a b : Nat} {ts : List GeneralTranslation}, Shown a b ts →
    (ts.map GeneralTranslation.shows).map Span.width = ts.map GeneralTranslation.bytesCount
  | _, _, [], _ => rfl
  | _, _, t :: ts, h => by
    rw [List.map_cons, List.map_cons, List.map_cons, h.1, Span.of_width, h.2.widths]

/-- The texts play no part. -/
theorem Shown.congr {a b : Nat} {ts us : List GeneralTranslation} (h : Shown a b ts)
    (htexts : List.Forall₂ (fun t u => u.shows = t.shows ∧ u.bytesCount = t.bytesCount) ts us) :
    Shown a b us := by
  induction htexts generalizing a with
  | nil => exact h
  | cons htu _ ih =>
    obtain ⟨hshows, hrest⟩ := h
    rw [shown_cons, htu.1, htu.2]
    exact ⟨hshows, ih hrest⟩

/-- The byte counts add up to the range. -/
theorem Shown.sum {a b : Nat} {ts : List GeneralTranslation} (h : Shown a b ts) :
    a + (ts.map GeneralTranslation.bytesCount).sum = b := by
  rw [← h.widths]
  exact h.tiles.sum_widths

/-- Groups that each show the next `w` bytes show them all. -/
theorem shown_windows {a w : Nat} : ∀ {n k : Nat} {gs : List TranslationGroup},
    List.Forall₂ (fun i ts => Shown (a + i * w) (a + (i + 1) * w) ts) (List.range' k n) gs →
      Shown (a + k * w) (a + (k + n) * w) gs.flatten
  | 0, _, _, h => by
    cases h
    rfl
  | n + 1, k, _, h => by
    rw [List.range'_succ] at h
    cases h with
    | cons hfirst hrest =>
      have hgroups := shown_windows hrest
      rw [Nat.add_assoc k 1 n, Nat.add_comm 1 n] at hgroups
      exact hfirst.append hgroups

/-- When every turn of a loop shows the next stretch of bytes, the loop shows them all. -/
theorem shown_turns {ε σ α : Type} {L : Loop ε σ α} {I : σ → Prop} {p : σ → Nat}
    {f : α → List GeneralTranslation}
    (hstep : ∀ {s t a}, I s → L.more s = true → L.next s = .ok (a, t) →
      I t ∧ Shown (p s) (p t) (f a))
    {s u : σ} {as : List α} (h : L.Turns s as u) (hs : I s) :
    I u ∧ Shown (p s) (p u) (as.flatMap f) :=
  h.chain (fun _ => shown_nil.mpr rfl) Shown.append hstep hs

/-- **Ranges from reads**: when the fields were read one after another from `[a, b)` in display
order and the byte counts are the lengths read, the fixed ranges are the intervals read. -/
theorem tiledBy_of_shown {a b : Nat} {gs : List TranslationGroup} (h : Shown a b gs.flatten) :
    TiledBy a b (fixTranslationDataRange a gs) := by
  have hlay : layOut a (gs.flatten.map GeneralTranslation.bytesCount) =
      gs.flatten.map GeneralTranslation.shows := by
    rw [← h.widths, layOut_widths h.tiles]
  have hrange := fix_ranges a gs
  rw [hlay, ← fix_shows a gs, List.map_map] at hrange
  refine ⟨?_, fun t hmem => List.map_inj_left.mp hrange t hmem⟩
  rw [ranges_fix, hlay]
  exact h.tiles

/-- A group that shows `[a, b)` has these ranges iff it is reached at `a`. -/
theorem tiledBy_fixGroup_iff {a b current : Nat} {g : TranslationGroup} (hne : g ≠ [])
    (h : Shown a b g) : TiledBy a b [(fixGroup current g).1] ↔ current = a := by
  constructor
  · intro htiled
    have htiles := htiled.tiles
    have hranges := ranges_fix current [g]
    rw [fixTranslationDataRange, fixTranslationDataRange, List.flatten_singleton] at hranges
    rw [hranges] at htiles
    obtain ⟨t, ts, rfl⟩ := List.exists_cons_of_ne_nil hne
    exact htiles.1
  · rintro rfl
    have htiled : TiledBy current b (fixTranslationDataRange current [g]) :=
      tiledBy_of_shown (by rwa [List.flatten_singleton])
    rwa [fixTranslationDataRange, fixTranslationDataRange] at htiled

/-- Groups that each show a span have these ranges iff the spans follow each other. -/
theorem tiledBy_groups_iff {α : Type} {span : α → Span} {f : α → TranslationGroup} {as : List α} :
    ∀ {current : Nat}, (∀ a ∈ as, f a ≠ [] ∧ Shown (span a).lower (span a).upper (f a)) →
      (List.Forall₂ (fun a g => TiledBy (span a).lower (span a).upper [g]) as
          (fixTranslationDataRange current (as.map f)) ↔
        ∃ b, Tiles current b (as.map span)) := by
  induction as with
  | nil => exact fun _ => iff_of_true .nil ⟨_, rfl⟩
  | cons a as ih =>
    intro current hall
    obtain ⟨hne, hshown⟩ := hall a List.mem_cons_self
    have hall : ∀ b ∈ as, f b ≠ [] ∧ Shown (span b).lower (span b).upper (f b) :=
      fun b hb => hall b (List.mem_cons_of_mem a hb)
    have hsum := hshown.sum
    rw [List.map_cons, List.map_cons, fixTranslationDataRange, List.forall₂_cons,
      tiledBy_fixGroup_iff hne hshown, ih hall, fixGroup_snd]
    constructor
    · rintro ⟨rfl, b, hb⟩
      rw [hsum] at hb
      exact ⟨b, rfl, hshown.tiles.le, hb⟩
    · rintro ⟨b, hlower, hle, hb⟩
      refine ⟨hlower.symm, b, ?_⟩
      rw [← hlower, hsum]
      exact hb

/-- The byte counts alone place every range inside `[a, a + total)`. -/
theorem mem_fix_bounds {a : Nat} {gs : List TranslationGroup} {s : Span}
    (h : s ∈ ranges (fixTranslationDataRange a gs)) :
    a ≤ s.lower ∧ s.upper ≤ a + (gs.flatten.map GeneralTranslation.bytesCount).sum := by
  rw [ranges_fix] at h
  exact mem_layOut_bounds h

end Mocha
