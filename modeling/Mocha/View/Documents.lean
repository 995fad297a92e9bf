import Mocha.Document.Encoding
import Mocha.View.MainView

/-!
# Documents in the window

A document that was written, with all its nested archives and fat files, is chosen in the panel of the button.
One thin file is shown at once, and the program ends if it cannot be read. Any other number of them is
listed, whether they can be read or not.

* `closePanel_iff`: what choosing a file that opens does.
* **`document_offered`**: the window offers the thin files of the document, and no others.
-/

namespace Mocha

open Lib

namespace MainViewState

variable {g : Segmentation} {name : String} {bytes : List UInt8} {s t : MainViewState}
  {l : List MachoMetaData}

/-- What a file with these Mach-O files does to the window: the only one is shown, several are listed. -/
inductive Receives (s : MainViewState) (name : String) : List MachoMetaData → MainViewState → Prop
  | one {x : MachoMetaData} {m : Macho} (hmacho : x.macho = .ok m) :
      Receives s name [x] { s with selectedFileURL := some name, selectedMacho := some m }
  | several {l : List MachoMetaData} (hl : l.length ≠ 1) :
      Receives s name l { s with selectedFileURL := some name, machoMetaDatas := some l }

/-- Opening a file that consists of these Mach-O files. -/
theorem openFile_iff (hopens : Opens g name ⟨0, bytes⟩ l) :
    (∃ fuel, s.openFile g fuel name (some bytes) = .ok t) ↔ Receives s name l t := by
  have hread : ∀ fuel, MochaDocument.init g fuel name ⟨0, bytes⟩ = .ok ⟨name, bytes.length, l⟩ →
      (s.openFile g fuel name (some bytes) = .ok t ↔ Receives s name l t) := by
    intro fuel hinit
    unfold openFile
    simp only [hinit, attempt, ok_bind]
    by_cases hone : l.length = 1
    · obtain ⟨x, rfl⟩ := List.length_eq_one_iff.mp hone
      rw [if_pos hone]
      simp only [List.head?_cons, Option.mapM_some]
      cases hm : x.macho with
      | error trap =>
        constructor
        · intro h
          cases h
        · intro h
          cases h with
          | one hmacho =>
            rw [hm] at hmacho
            cases hmacho
          | several hl => exact absurd rfl hl
      | ok m =>
        constructor
        · intro h
          cases h
          exact .one hm
        · intro h
          cases h with
          | one hmacho =>
            rw [hm, Except.ok.injEq] at hmacho
            subst hmacho
            rfl
          | several hl => exact absurd rfl hl
    · rw [if_neg hone]
      constructor
      · intro h
        cases h
        exact .several hone
      · intro h
        cases h with
        | one hmacho => exact absurd rfl hone
        | several hl => rfl
  constructor
  · rintro ⟨fuel, h⟩
    -- with too little fuel there is no step
    rcases hopens.init_eq fuel with hinit | hinit
    · unfold openFile at h
      simp only [hinit, attempt] at h
      cases h
    · exact (hread fuel hinit).mp h
  · intro h
    obtain ⟨fuel, hinit⟩ := hopens.exists_init
    exact ⟨fuel, (hread fuel hinit).mpr h⟩

/-- Choosing a file that consists of these Mach-O files. -/
theorem closePanel_iff (hpanels : 0 < s.panels) (hopens : Opens g name ⟨0, bytes⟩ l) :
    Step g (.closePanel (some (name, some bytes))) s t ↔
      Receives { s with panels := s.panels - 1 } name l t := by
  rw [← openFile_iff hopens]
  unfold Step
  simp only [step, if_neg (Nat.ne_of_gt hpanels), Option.some_inj]

theorem body_eq_openFile : s.body = .openFile ↔ s.selectedMacho = none ∧ s.machoMetaDatas = none := by
  unfold body
  cases s.selectedMacho <;> cases s.machoMetaDatas <;> simp

/-- The next update of a window that was empty makes room for what it received. -/
theorem Receives.update (h : Receives s name l t) (hpanels : s.panels = 0) (hempty : s.body = .openFile)
    (hscreen : s.screen = .openFile) : Settled t.update t.update ∧
      ∀ m, (t.update.selectedMacho = some m ∨ (t.update.screen = .selection ∧
        ∃ x ∈ t.update.seletableMachoMetaDatas, x.machoMetaData.macho = .ok m)) ↔
          ∃ x ∈ l, x.macho = .ok m := by
  obtain ⟨hmacho, hlist⟩ := body_eq_openFile.mp hempty
  cases h with
  | @one x m hx =>
    have hbody : ({ s with selectedFileURL := some name, selectedMacho := some m } :
        MainViewState).body = .macho := body_eq_macho.mpr rfl
    rw [update_eq_clear hbody (by decide)]
    refine ⟨⟨hpanels, fun hno => ?_, fun hno => ?_, fun _ => rfl, .inl rfl⟩, fun m' => ?_⟩
    · cases hno
    · cases hno
    · simp only [reduceCtorEq, false_and, or_false, List.mem_singleton, exists_eq_left, hx,
        Except.ok.injEq, Option.some_inj]
  | several hl =>
    have hbody : ({ s with selectedFileURL := some name, machoMetaDatas := some l } :
        MainViewState).body = .selection := body_eq_selection.mpr ⟨hmacho, rfl⟩
    have hnew : s.screen ≠ .selection := by rw [hscreen]; decide
    rw [update_eq_selection hbody]
    simp only [if_neg hnew]
    refine ⟨⟨hpanels, fun hno => ?_, fun _ => ⟨rfl, rfl, rfl⟩, fun hno => ?_, .inl rfl⟩, fun m' => ?_⟩
    · cases hno
    · cases hno
    · simp [hmacho, selectionView]

end MainViewState

open MainViewState in
/-- **The window offers what was written.** Take a document, the bytes of a way of writing it, and any state of
the window in which nothing was opened so far and one panel is open. The file can be chosen unless it has a
single thin file that `Macho.init` traps on. Once it was chosen and the window is updated, the Mach-O files
that some events bring on the screen are exactly those of the thin files of the document. -/
theorem document_offered {g : Segmentation} {document : Document} {bytes : List UInt8}
    (hwritten : document.Encodes bytes) (name : String) {es : List MainEvent} {s : MainViewState}
    (hs : Reached g es s) (hpanels : s.panels = 1) (hempty : s.body = .openFile) :
    ((∃ t, Step g (.closePanel (some (name, some bytes))) s t) ↔
      ∀ leaf, document.leaves name = [leaf] → ∃ m, (leaf.2.machoMetaData leaf.1).macho = .ok m) ∧
    ∀ t, Step g (.closePanel (some (name, some bytes))) s t → ∀ m,
      (∃ u, Later g t.update u ∧ u.screen = .macho ∧ u.selectedMacho = some m) ↔
        ∃ leaf ∈ document.leaves name, (leaf.2.machoMetaData leaf.1).macho = .ok m := by
  have hinv := MainInv.of_reached hs
  have hopens : Opens g name ⟨0, bytes⟩ _ := Document.Encodes.opens document hwritten
  have hstep : ∀ t, Step g (.closePanel (some (name, some bytes))) s t ↔ _ := fun t =>
    closePanel_iff (by omega) hopens
  have hscreen : s.screen = .openFile := by
    obtain ⟨hmacho, hlist⟩ := body_eq_openFile.mp hempty
    cases hscreen : s.screen with
    | openFile => rfl
    | selection => simpa [hlist] using hinv.screen.1 hscreen
    | macho => simpa [hmacho] using hinv.screen.2 hscreen
  constructor
  · simp only [hstep]
    constructor
    · rintro ⟨t, ht⟩ leaf hleaf
      rw [hleaf, List.map_singleton] at ht
      cases ht with
      | @one _ m hm => exact ⟨m, hm⟩
      | several hl => exact absurd rfl hl
    · intro hone
      by_cases hlength : (document.leaves name).length = 1
      · obtain ⟨leaf, hleaf⟩ := List.length_eq_one_iff.mp hlength
        obtain ⟨m, hm⟩ := hone leaf hleaf
        rw [hleaf]
        exact ⟨_, .one hm⟩
      · exact ⟨_, .several (by rwa [List.length_map])⟩
  · intro t ht m
    obtain ⟨hsettled, hshows⟩ := ((hstep t).mp ht).update (by simp [hpanels]) hempty hscreen
    rw [hsettled.shows_iff m, hshows m]
    simp only [List.mem_map, exists_exists_and_eq_and]

/-- `functionFile` as a thin file. -/
def functionThin : ThinFile where
  is64Bit := true
  bytes := functionFile.bytes
  magic := by decide +kernel
  full := by decide +kernel

/-- Two architectures with the same slice. -/
def functionSlices : Slices :=
  .cons ⟨0x0100000c, 0, 48, 244, 0⟩ (.thin functionThin)
    (.cons ⟨0x0100000c, 2, 48, 244, 0⟩ (.thin functionThin) .nil)

/-- The fat file of them. -/
def functionFat : List UInt8 :=
  FatBinary.magic ++ (beBytes 4 2 ++ functionSlices.table) ++ functionFile.bytes

theorem functionFat_encodes : (Document.fat functionSlices).Encodes functionFat := by
  have hslice : (functionFat.drop 48).take 244 = functionThin.bytes := by decide +kernel
  refine ⟨by decide, List.prefix_append _ _, ?_, hslice, ?_, hslice, trivial⟩
  · decide +kernel
  · decide +kernel

open MainViewState in
theorem document_offered_functionFat :
    ∃ s t u m, Reached asciiSegmentation [.clickOpenFile] s ∧
      Step asciiSegmentation (.closePanel (some ("f", some functionFat))) s t ∧
      Later asciiSegmentation t.update u ∧ u.screen = .macho ∧ u.selectedMacho = some m ∧
      Macho.init functionFile "f" functionFileHeader = .ok m := by
  have hinit : (Macho.init functionFile "f" functionFileHeader).toOption.isSome = true := by
    decide +kernel
  obtain ⟨m, hm⟩ := Option.isSome_iff_exists.mp hinit
  rw [toOption_eq_some] at hm
  have hs : Reached asciiSegmentation [.clickOpenFile] { MainViewState.init with panels := 1 } :=
    .event .start ⟨0, rfl⟩
  obtain ⟨hchosen, hoffers⟩ := document_offered functionFat_encodes "f" hs rfl rfl
  obtain ⟨t, ht⟩ := hchosen.mpr fun leaf hleaf => by cases hleaf
  obtain ⟨u, hlater, hscreen, hmacho⟩ :=
    (hoffers t ht m).mpr ⟨("f", functionThin), List.mem_cons_self, hm⟩
  exact ⟨_, t, u, m, hs, ht, hlater, hscreen, hmacho, hm⟩

end Mocha
