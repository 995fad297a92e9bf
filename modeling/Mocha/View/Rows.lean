import Mathlib.Data.List.Induction
import Mocha.Components.Capstone
import Mocha.Macho.Scheduler

/-!
# The rows of a component (`MachoComponent`'s translation data source, `TranslationsView.body`)

`TranslationsView` asks a component for its number of groups, for the number of translations of each group
and for the translation at each index path. `MachoComponent` answers from `translationGroups`, which is nil
until the job has stored it, and `InstructionComponent` from its instruction bank, which is nil until
`runInitializing` has filled it in. Each answer traps when it is asked for too early, or at an index that
is not there.

**`source_rows`**: once a component is done, whatever the order of the jobs, none of these calls traps: all of
its translations or instructions are listed, in order, and the ranges of the rows lie one behind the other
from the first byte of the component on.
-/

namespace Mocha

open Lib

/-- `BaseTranslation`, as one of its subclasses. -/
inductive BaseTranslation where
  | general (translation : GeneralTranslation)
  | instruction (translation : InstructionTranslation)

/-- `dataRangeInMacho`. -/
def BaseTranslation.dataRangeInMacho : BaseTranslation → Option Span
  | .general t => t.dataRangeInMacho
  | .instruction t => some t.dataRangeInMacho

/-- `array[index]`. -/
def elementAt {α : Type} (array : List α) (index : Nat) : Run α :=
  match array[index]? with
  | some a => .ok a
  | none => .error .outOfBounds

theorem elementAt_eq_ok {α : Type} {array : List α} {index : Nat} {a : α} :
    elementAt array index = .ok a ↔ array[index]? = some a := by
  unfold elementAt
  cases array[index]? <;> simp

/-- What a component answers from: `translationGroups!`, or `instructionBank!` of an
`InstructionComponent`. -/
inductive TranslationSource where
  | groups (translationGroups : Option (List TranslationGroup))
  | bank (component : Option InstructionComponent)

namespace TranslationSource

/-- `numberOfTranslationGroups()`. -/
def numberOfTranslationGroups : TranslationSource → Run Nat
  | .groups translationGroups => do return (← unwrap translationGroups).length
  | .bank component => do return (← unwrap component).numberOfTranslationGroups

/-- `numberOfTranslations(in:)`. -/
def numberOfTranslations (groupIndex : Nat) : TranslationSource → Run Nat
  | .groups translationGroups => do return (← elementAt (← unwrap translationGroups) groupIndex).length
  | .bank component => do return (← unwrap component).numberOfTranslations groupIndex

/-- `translation(at:)`; an index path is its section and its item. -/
def translation (indexPath : Nat × Nat) : TranslationSource → Run BaseTranslation
  | .groups translationGroups => do
    let group ← elementAt (← unwrap translationGroups) indexPath.1
    return .general (← elementAt group indexPath.2)
  | .bank component => do return .instruction (← (← unwrap component).translation indexPath)

/-- The index paths the two `ForEach` of `TranslationsView` go through. -/
def indexPaths (source : TranslationSource) : Run (List (Nat × Nat)) := do
  let sections ← (List.range (← source.numberOfTranslationGroups)).mapM fun groupIndex => do
    let count ← source.numberOfTranslations groupIndex
    return (List.range count).map fun itemIndex => (groupIndex, itemIndex)
  return sections.flatten

/-- The row is there, and a tap on it finds a range. -/
def HasRow (source : TranslationSource) (indexPath : Nat × Nat) : Prop :=
  ∃ t range, source.translation indexPath = .ok t ∧ t.dataRangeInMacho = some range

/-- All rows are there. -/
def Complete (source : TranslationSource) : Prop :=
  ∃ paths, source.indexPaths = .ok paths ∧ ∀ path ∈ paths, source.HasRow path

/-- The rows in the order in which they are listed, with the ranges a tap on them finds. The ranges lie one
behind the other from `a` on. -/
structure RowsFrom (source : TranslationSource) (a : Nat) (paths : List (Nat × Nat)) (ranges : List Span) :
    Prop where
  listed : source.indexPaths = .ok paths
  found : List.Forall₂ (fun path range => ∃ t, source.translation path = .ok t ∧
    t.dataRangeInMacho = some range) paths ranges
  tiled : ∃ e, Tiles a e ranges

theorem RowsFrom.complete {source : TranslationSource} {a : Nat} {paths : List (Nat × Nat)}
    {ranges : List Span} (h : source.RowsFrom a paths ranges) : source.Complete := by
  refine ⟨paths, h.listed, ?_⟩
  intro path hpath
  obtain ⟨range, -, t, ht, hrange⟩ := forall₂_exists_right h.found hpath
  exact ⟨t, range, ht, hrange⟩

end TranslationSource

open TranslationSource

/-! ## Components with groups -/

section Groups

variable {gs : List TranslationGroup}

/-- The index paths of groups. -/
def groupPaths (gs : List TranslationGroup) : List (Nat × Nat) :=
  places gs.length fun g => (gs[g]?.map List.length).getD 0

theorem groups_indexPaths : (TranslationSource.groups (some gs)).indexPaths = .ok (groupPaths gs) := by
  have hrows : (List.range gs.length).mapM (fun groupIndex => do
      let count ← (TranslationSource.groups (some gs)).numberOfTranslations groupIndex
      return (List.range count).map fun itemIndex => (groupIndex, itemIndex)) =
      (.ok ((List.range gs.length).map fun groupIndex =>
        (List.range ((gs[groupIndex]?.map List.length).getD 0)).map fun itemIndex =>
          (groupIndex, itemIndex)) : Run (List (List (Nat × Nat)))) := by
    rw [mapM_eq_ok, List.forall₂_map_right_iff, List.forall₂_same]
    intro g hg
    have hget := List.getElem?_eq_getElem (List.mem_range.mp hg)
    simp only [TranslationSource.numberOfTranslations, unwrap, ok_bind, elementAt_eq_ok.mpr hget, hget]
    rfl
  unfold TranslationSource.indexPaths
  simp only [TranslationSource.numberOfTranslationGroups, unwrap, ok_bind, pure_eq_ok] at hrows ⊢
  rw [hrows, ok_bind, groupPaths, places, List.flatMap_def]

theorem groups_translation {path : Nat × Nat} {t : GeneralTranslation} :
    (TranslationSource.groups (some gs)).translation path = .ok (.general t) ↔
      ∃ g, gs[path.1]? = some g ∧ g[path.2]? = some t := by
  simp only [TranslationSource.translation, unwrap, ok_bind, bind_eq_ok, elementAt_eq_ok, pure_eq_ok,
    Except.ok.injEq, BaseTranslation.general.injEq]
  constructor
  · rintro ⟨g, hg, u, hu, rfl⟩
    exact ⟨g, hg, hu⟩
  · rintro ⟨g, hg, hu⟩
    exact ⟨g, hg, t, hu, rfl⟩

/-- **Read in order, the rows are all translations.** -/
theorem groupPaths_rows (gs : List TranslationGroup) :
    (groupPaths gs).map (fun path => gs[path.1]?.bind fun g => g[path.2]?) = gs.flatten.map some := by
  induction gs using List.reverseRecOn with
  | nil => rfl
  | append_singleton gs g ih =>
    have hlast : (gs ++ [g])[gs.length]? = some g := by
      rw [List.getElem?_append_right (Nat.le_refl _), Nat.sub_self]
      rfl
    have hearlier : ∀ n < gs.length, (gs ++ [g])[n]? = gs[n]? := fun n hn =>
      List.getElem?_append_left hn
    have hpaths : groupPaths (gs ++ [g]) =
        groupPaths gs ++ (List.range g.length).map fun j => (gs.length, j) := by
      unfold groupPaths
      rw [List.length_append, List.length_singleton, places_succ, hlast, Option.map_some,
        Option.getD_some]
      refine congrArg (· ++ _) (List.flatMap_congr fun n hn => ?_)
      simp only [hearlier n (List.mem_range.mp hn)]
    rw [hpaths, List.map_append, List.flatten_append, List.map_append, ← ih]
    refine congrArg₂ (· ++ ·) (List.map_congr_left fun path hpath => ?_) ?_
    · unfold groupPaths at hpath
      rw [hearlier path.1 (mem_places.mp hpath).1]
    · rw [List.map_map, List.flatten_singleton]
      refine List.ext_getElem? fun n => ?_
      rw [List.getElem?_map, List.getElem?_map]
      by_cases hn : n < g.length
      · rw [List.getElem?_range hn]
        simp [List.getElem?_eq_getElem hn]
      · rw [List.getElem?_eq_none (by simpa using Nat.le_of_not_lt hn),
          List.getElem?_eq_none (Nat.le_of_not_lt hn)]
        rfl

/-- **The rows of fixed groups** are their translations, one behind the other. -/
theorem groups_rows (a : Nat) :
    (TranslationSource.groups (some (fixTranslationDataRange a gs))).RowsFrom a
      (groupPaths (fixTranslationDataRange a gs))
      (layOut a (gs.flatten.map GeneralTranslation.bytesCount)) := by
  refine ⟨groups_indexPaths, ?_, _, layOut_tiles _ _⟩
  have hrows := congrArg (List.map fun o => o.bind GeneralTranslation.dataRangeInMacho)
    (groupPaths_rows (fixTranslationDataRange a gs))
  rw [List.map_map, List.map_map] at hrows
  have hrows := hrows.trans (fix_ranges a gs)
  rw [← List.forall₂_eq_eq_eq, List.forall₂_map_left_iff, List.forall₂_map_right_iff] at hrows
  refine hrows.imp ?_
  intro path range hrow
  obtain ⟨t, ht, hrange⟩ := Option.bind_eq_some_iff.mp hrow
  exact ⟨.general t, groups_translation.mpr (Option.bind_eq_some_iff.mp ht), hrange⟩

end Groups

/-! ## Code sections -/

section Instructions

variable {data : Data} {arch : CapStoneArchType} {virtualAddress : UInt64}

theorem bank_indexPaths (c : InstructionComponent) :
    (TranslationSource.bank (some c)).indexPaths = .ok c.indexPaths := by
  have hrows : (List.range c.numberOfTranslationGroups).mapM (fun groupIndex => do
      let count ← (TranslationSource.bank (some c)).numberOfTranslations groupIndex
      return (List.range count).map fun itemIndex => (groupIndex, itemIndex)) =
      (.ok ((List.range c.numberOfTranslationGroups).map fun groupIndex =>
        (List.range (c.numberOfTranslations groupIndex)).map fun itemIndex =>
          (groupIndex, itemIndex)) : Run (List (List (Nat × Nat)))) := by
    rw [mapM_eq_ok, List.forall₂_map_right_iff, List.forall₂_same]
    exact fun g _ => rfl
  unfold TranslationSource.indexPaths
  simp only [TranslationSource.numberOfTranslationGroups, unwrap, ok_bind, pure_eq_ok] at hrows ⊢
  rw [hrows, ok_bind, InstructionComponent.indexPaths, places, List.flatMap_def]

/-- **The rows of a code section** are its instructions, one behind the other. -/
theorem instruction_rows (cs : CapStone) (haddress : virtualAddress.toNat + data.count < 2 ^ 64)
    (hdata : data.endIndex < 2 ^ 63) : ∃ paths ranges, (TranslationSource.bank (some
      (.runInitializing cs data arch virtualAddress))).RowsFrom data.startIndex paths ranges := by
  obtain ⟨insns, hproduces⟩ := exists_produces cs data arch virtualAddress
  obtain ⟨ts, hts, hranges⟩ := Produces.laidOut haddress hdata hproduces
  refine ⟨_, layOut data.startIndex (sizes insns), bank_indexPaths _, ?_, _, layOut_tiles _ _⟩
  rw [← hranges, List.forall₂_map_right_iff]
  refine (mapM_eq_ok.mp hts).imp ?_
  intro path t ht
  refine ⟨.instruction t, ?_, rfl⟩
  simp only [TranslationSource.translation, unwrap, ok_bind, ht]
  rfl

end Instructions

/-! ## The components of a file -/

/-- What the component at a position answers from, in a state of the scheduler. -/
def Macho.source (cs : CapStone) (m : Macho) (s : State Nat ComponentState (List TranslationGroup))
    (i : Nat) : TranslationSource :=
  match m.allComponents[i]? with
  | none => .groups none
  | some c =>
    match c.kind with
    | .instruction capStoneArchType virtualAddress =>
      .bank (if (s.cells i).prepared then
        some (.runInitializing cs c.data capStoneArchType virtualAddress) else none)
    | _ => .groups (s.cells i).groups

/-- The addresses of every code section are addresses, and its bytes are bytes of an array. -/
def Macho.AddressesFit (m : Macho) : Prop :=
  ∀ c ∈ m.allComponents, ∀ capStoneArchType virtualAddress,
    c.kind = .instruction capStoneArchType virtualAddress →
      virtualAddress.toNat + c.data.count < 2 ^ 64 ∧ c.data.endIndex < 2 ^ 63

section Source

variable {cs : CapStone} {m : Macho} {stack i : Nat}
  {s t : State Nat ComponentState (List TranslationGroup)}

/-- What a component answers from depends on its own cell alone. -/
theorem source_congr (hgroups : (t.cells i).groups = (s.cells i).groups)
    (hprepared : (t.cells i).prepared = (s.cells i).prepared) : m.source cs t i = m.source cs s i := by
  unfold Macho.source
  rw [hgroups, hprepared]

/-- **The rows of a component that is done** are all there, one behind the other from its first byte on. -/
theorem source_rows (hwf : (m.plan stack).Wf) (hfit : m.AddressesFit)
    (hs : (m.plan stack).Reachable s) {c : MachoComponent} (hc : m.allComponents[i]? = some c)
    (hdone : (s.cells i).isDone = true) :
    ∃ paths ranges, (m.source cs s i).RowsFrom c.offsetInMacho paths ranges := by
  obtain ⟨-, gs, hgroups⟩ := hs.done_fixed hwf hdone
  have hplain : ∃ paths ranges,
      (TranslationSource.groups (s.cells i).groups).RowsFrom c.offsetInMacho paths ranges := by
    have hoffset : (m.plan stack).fix i gs = fixTranslationDataRange c.offsetInMacho gs := by
      simp only [Macho.plan, hc, Option.map_some, Option.getD_some]
    rw [hgroups, hoffset]
    exact ⟨_, _, groups_rows c.offsetInMacho⟩
  unfold Macho.source
  simp only [hc]
  split
  · rename_i arch address hkind
    obtain ⟨haddress, hdata⟩ := hfit c (List.mem_of_getElem? hc) arch address hkind
    rw [if_pos (hs.done_prepared hwf hdone)]
    exact instruction_rows cs haddress hdata
  · exact hplain

end Source

end Mocha
