import Mocha.Document.Leaves
import Mocha.Macho.Macho

/-!
# Opening a file (`MainView`, `MachoSelectionView`, `OpenPanelDelegate`)

The window shows a button until a file is opened, then the list of the Mach-O files in it, unless there is
only one, and last the Mach-O file that is chosen. Which of the three it is follows from two optional
`@State` variables when the view is updated, and the list keeps the rows it was made with. The panel of
the button is not modal: the button can be clicked again while it is open, and each panel opens its file
when it is closed. A file that ends the program when it is opened has no step.

* **`panel_hides_rejected`**: the panel hides no file that could be opened.
* **`mainView_shows`**: in every state some order of events leads to, what is listed or shown is a part of
  a file that was opened.
* **`mainView_offers`**: once the panels are closed, the Mach-O files that can still be shown are exactly
  the ones in the list; there is no way back to the button.
-/

namespace Mocha

open Lib

/-! ## The open panel -/

/-- The values `resourceValues(forKeys:)` gives for a URL. -/
structure ResourceValues (τ : Type) where
  isDirectory : Option Bool
  isRegularFile : Option Bool
  contentType : Option τ

/-- `OpenPanelDelegate`, with the type the system has for executables. -/
structure OpenPanelDelegate (τ : Type) where
  unixExecutable : τ
  unixArchiveType : Option τ
  dylibType : Option τ

/-- The magic numbers the panel looks for. -/
def knownMagics : List (List UInt8) :=
  [FatBinary.magic, machoMagic false, machoMagic true, UnixArchive.magic]

/-- Whether a file that can be read begins with a magic number. -/
def readsMagic (file : Option (List UInt8)) (knownMagic : List UInt8) : Bool :=
  match file with
  | some bytes =>
    let buffer := bytes.take knownMagic.length
    buffer.length == knownMagic.length && buffer == knownMagic
  | none => false

/-- `panel(_:shouldEnable:)`. -/
def OpenPanelDelegate.shouldEnable {τ : Type} [DecidableEq τ] (o : OpenPanelDelegate τ)
    (resourceValues : Option (ResourceValues τ)) (file : Option (List UInt8)) : Bool :=
  match resourceValues with
  | none => false
  | some r =>
    if r.isDirectory = some true then true
    else if r.isRegularFile = some false then false
    else if r.contentType ≠ none ∧ (r.contentType = some o.unixExecutable ∨
        r.contentType = o.unixArchiveType ∨ r.contentType = o.dylibType) then true
    else knownMagics.any (readsMagic file)

theorem readsMagic_eq (bytes magic : List UInt8) :
    readsMagic (some bytes) magic = (⟨0, bytes⟩ : Data).starts magic := by
  unfold readsMagic Data.starts
  rw [Bool.eq_iff_iff, List.isPrefixOf_iff_prefix, List.prefix_iff_eq_take]
  simp only [Bool.and_eq_true, beq_iff_eq]
  constructor
  · exact fun h => h.2.symm
  · exact fun h => ⟨congrArg List.length h.symm, h.symm⟩

/-- The panel looks for the magic numbers the initializers know. -/
theorem any_readsMagic_iff (bytes : List UInt8) :
    knownMagics.any (readsMagic (some bytes)) = true ↔ HasMagic ⟨0, bytes⟩ := by
  simp only [knownMagics, List.any_cons, List.any_nil, readsMagic_eq, Bool.or_eq_true, HasMagic,
    Bool.exists_bool, Bool.false_eq_true, or_false]
  tauto

/-- **The panel hides only what is rejected**: opening a file that is not enabled throws, if it is not
something else than a file. -/
theorem panel_hides_rejected {τ : Type} [DecidableEq τ] (o : OpenPanelDelegate τ)
    {r : ResourceValues τ} {bytes : List UInt8} (hfile : r.isRegularFile ≠ some false)
    (h : o.shouldEnable (some r) (some bytes) = false) (g : Segmentation) (name : String) (fuel : Nat) :
    MochaDocument.init g (fuel + 1) name ⟨0, bytes⟩ = .error (.thrown .mochaDocumentError) := by
  have hmagic : ¬ HasMagic ⟨0, bytes⟩ := by
    rw [← any_readsMagic_iff, Bool.not_eq_true]
    unfold OpenPanelDelegate.shouldEnable at h
    simp only [hfile, if_false] at h
    split_ifs at h
    exact h
  have hmacho : ∀ b, Data.starts ⟨0, bytes⟩ (machoMagic b) = false := by
    intro b
    rw [← Bool.not_eq_true]
    exact fun h => hmagic (.inr (.inr ⟨b, h⟩))
  rw [init_succ, contents, if_neg (fun h => hmagic (.inl h)), if_neg (fun h => hmagic (.inr (.inl h))),
    machoMetaData_thrown hmacho]
  rfl

/-! ## The window -/

/-- `MachoMetaData.macho`. -/
def MachoMetaData.macho (x : MachoMetaData) : Run Macho :=
  Macho.init x.machoData x.fileName x.machoHeader

/-- `SeletableMachoMetaData`. -/
structure SeletableMachoMetaData where
  machoMetaData : MachoMetaData
  selected : Bool

/-- The branches of `MainView.body`. -/
inductive Screen where
  | openFile
  | selection
  | macho
  deriving DecidableEq

/-- The state of the window. -/
structure MainViewState where
  selectedMacho : Option Macho
  /-- the last component of `selectedFileURL` -/
  selectedFileURL : Option String
  machoMetaDatas : Option (List MachoMetaData)
  /-- the branch that is on the screen -/
  screen : Screen
  /-- the state of the `MachoSelectionView`, while there is one -/
  seletableMachoMetaDatas : List SeletableMachoMetaData
  /-- the number of panels that are open -/
  panels : Nat

/-- What may happen to the window. -/
inductive MainEvent where
  | clickOpenFile
  /-- a panel is closed: without a choice, or with a file that may be unreadable -/
  | closePanel (choice : Option (String × Option (List UInt8)))
  /-- the view is updated -/
  | update
  | toggle (index : Nat)
  | clickOpen

namespace MainViewState

/-- `MainView()`. -/
def init : MainViewState := ⟨none, none, none, .openFile, [], 0⟩

variable (s : MainViewState)

/-- `body`. -/
def body : Screen :=
  if s.selectedMacho.isSome then .macho
  else if s.machoMetaDatas.isSome then .selection
  else .openFile

/-- `MachoSelectionView(_:selectedMacho:)`. -/
def selectionView : List SeletableMachoMetaData :=
  (s.machoMetaDatas.getD []).map fun x => ⟨x, false⟩

/-- The update of the view. A `MachoSelectionView` that is already there keeps its state. -/
def update : MainViewState :=
  match s.body with
  | .selection => { s with
      screen := .selection
      seletableMachoMetaDatas :=
        if s.screen = .selection then s.seletableMachoMetaDatas else s.selectionView }
  | screen => { s with screen := screen, seletableMachoMetaDatas := [] }

/-- The closure of `openPanel.begin`, for a chosen file. -/
def openFile (g : Segmentation) (fuel : Nat) (name : String) (file : Option (List UInt8)) :
    Opening MainViewState :=
  let s := { s with selectedFileURL := some name }
  match file with
  | none => .ok s
  | some bytes => do
    match ← attempt (MochaDocument.init g fuel name ⟨0, bytes⟩) with
    | none => return s
    | some document =>
      if document.machoMetaDatas.length = 1 then
        let macho ← document.machoMetaDatas.head?.mapM fun x => ofRun x.macho
        return { s with selectedMacho := macho }
      else return { s with machoMetaDatas := some document.machoMetaDatas }

/-- `seletableMachoMetaDatas.first { $0.selected }`. -/
def firstSelected : Option SeletableMachoMetaData :=
  s.seletableMachoMetaDatas.find? fun x => x.selected

/-- What an event does: nothing if it cannot happen now, and a failure if the program fails. -/
def step (g : Segmentation) (fuel : Nat) : MainEvent → Option (Opening MainViewState)
  | .clickOpenFile =>
    if s.screen = .openFile then some (.ok { s with panels := s.panels + 1 }) else none
  | .closePanel choice =>
    if s.panels = 0 then none
    else
      let s := { s with panels := s.panels - 1 }
      match choice with
      | none => some (.ok s)
      | some (name, file) => some (s.openFile g fuel name file)
  | .update => some (.ok s.update)
  | .toggle index =>
    if s.screen = .selection then some (.ok { s with
      seletableMachoMetaDatas := s.seletableMachoMetaDatas.modify index fun x =>
        { x with selected := !x.selected } })
    else none
  | .clickOpen =>
    if s.screen = .selection then s.firstSelected.map fun x => do
      let macho ← ofRun x.machoMetaData.macho
      return { s with selectedMacho := some macho }
    else none

/-- One event. -/
def Step (g : Segmentation) (e : MainEvent) (s t : MainViewState) : Prop :=
  ∃ fuel, s.step g fuel e = some (.ok t)

/-- The state some events lead to. -/
inductive Reached (g : Segmentation) : List MainEvent → MainViewState → Prop
  | start : Reached g [] init
  | event {es : List MainEvent} {e : MainEvent} {s t : MainViewState} (hs : Reached g es s)
      (hstep : Step g e s t) : Reached g (es ++ [e]) t

/-- The states that may follow. -/
def Later (g : Segmentation) : MainViewState → MainViewState → Prop :=
  Relation.ReflTransGen fun s t => ∃ e, Step g e s t

/-- Everything an event can do. -/
inductive Change (g : Segmentation) (s : MainViewState) : MainEvent → MainViewState → Prop
  | clicked (hscreen : s.screen = .openFile) :
      Change g s .clickOpenFile { s with panels := s.panels + 1 }
  | closed {choice : Option (String × Option (List UInt8))} (url : Option String)
      (hpanels : 0 < s.panels) :
      Change g s (.closePanel choice) { s with panels := s.panels - 1, selectedFileURL := url }
  | single {name : String} {bytes : List UInt8} {x : MachoMetaData} {m : Macho} (hpanels : 0 < s.panels)
      (hopens : Opens g name ⟨0, bytes⟩ [x]) (hmacho : x.macho = .ok m) :
      Change g s (.closePanel (some (name, some bytes))) { s with
        panels := s.panels - 1, selectedFileURL := some name, selectedMacho := some m }
  | several {name : String} {bytes : List UInt8} {l : List MachoMetaData} (hpanels : 0 < s.panels)
      (hopens : Opens g name ⟨0, bytes⟩ l) (hl : l.length ≠ 1) :
      Change g s (.closePanel (some (name, some bytes))) { s with
        panels := s.panels - 1, selectedFileURL := some name, machoMetaDatas := some l }
  | updated : Change g s .update s.update
  | toggled (index : Nat) (hscreen : s.screen = .selection) :
      Change g s (.toggle index) { s with
        seletableMachoMetaDatas := s.seletableMachoMetaDatas.modify index fun x =>
          { x with selected := !x.selected } }
  | opened {x : SeletableMachoMetaData} {m : Macho} (hscreen : s.screen = .selection)
      (hx : s.firstSelected = some x) (hmacho : x.machoMetaData.macho = .ok m) :
      Change g s .clickOpen { s with selectedMacho := some m }

variable {s} {t : MainViewState} {g : Segmentation} {e : MainEvent}

theorem attempt_eq_ok {α : Type} {x : Opening α} {r : Option α} (h : attempt x = .ok r) :
    (∃ a, x = .ok a ∧ r = some a) ∨ r = none := by
  cases x with
  | ok a =>
    cases h
    exact .inl ⟨a, rfl, rfl⟩
  | error f =>
    cases f <;> cases h
    exact .inr rfl

theorem body_eq_macho : s.body = .macho ↔ s.selectedMacho.isSome = true := by
  unfold body
  by_cases hmacho : s.selectedMacho.isSome = true
  · simp [hmacho]
  · by_cases hlist : s.machoMetaDatas.isSome = true
    · simp [hmacho, hlist]
    · simp [hmacho, hlist]

theorem body_eq_selection :
    s.body = .selection ↔ s.selectedMacho = none ∧ s.machoMetaDatas.isSome = true := by
  unfold body
  rw [← Option.not_isSome_iff_eq_none]
  by_cases hmacho : s.selectedMacho.isSome = true
  · simp [hmacho]
  · by_cases hlist : s.machoMetaDatas.isSome = true
    · simp [hmacho, hlist]
    · simp [hmacho, hlist]

theorem update_eq_selection (h : s.body = .selection) :
    s.update = { s with
      screen := .selection
      seletableMachoMetaDatas :=
        if s.screen = .selection then s.seletableMachoMetaDatas else s.selectionView } := by
  unfold update
  rw [h]

theorem update_eq_clear {screen : Screen} (h : s.body = screen) (hne : screen ≠ .selection) :
    s.update = { s with screen := screen, seletableMachoMetaDatas := [] } := by
  unfold update
  rw [h]
  cases screen with
  | selection => exact absurd rfl hne
  | openFile => rfl
  | macho => rfl

/-- **What a step does.** -/
theorem Step.change (h : Step g e s t) : Change g s e t := by
  obtain ⟨fuel, h⟩ := h
  cases e with
  | clickOpenFile =>
    simp only [step] at h
    split_ifs at h with hscreen
    cases h
    exact .clicked hscreen
  | closePanel choice =>
    simp only [step] at h
    split_ifs at h with hpanels
    have hpos : 0 < s.panels := Nat.pos_of_ne_zero hpanels
    split at h
    · cases h
      exact .closed _ hpos
    · rename_i name file
      unfold openFile at h
      cases file with
      | none =>
        cases h
        exact .closed _ hpos
      | some bytes =>
        simp only [Option.some_inj, bind_eq_ok] at h
        obtain ⟨document, hattempt, h⟩ := h
        rcases attempt_eq_ok hattempt with ⟨document, hinit, rfl⟩ | rfl
        · have hopens := (opens_of_init hinit).2.2
          simp only at h
          split_ifs at h with hone
          · obtain ⟨x, hx⟩ := List.length_eq_one_iff.mp hone
            rw [hx] at h hopens
            rw [bind_eq_ok] at h
            obtain ⟨macho, hmacho, h⟩ := h
            cases h
            simp only [List.head?_cons, Option.mapM_some] at hmacho
            cases hm : x.macho with
            | error trap =>
              rw [hm] at hmacho
              cases hmacho
            | ok m =>
              rw [hm] at hmacho
              cases hmacho
              exact .single hpos hopens hm
          · cases h
            exact .several hpos hopens hone
        · cases h
          exact .closed _ hpos
  | update =>
    cases h
    exact .updated
  | toggle index =>
    simp only [step] at h
    split_ifs at h with hscreen
    cases h
    exact .toggled index hscreen
  | clickOpen =>
    simp only [step] at h
    split_ifs at h with hscreen
    rw [Option.map_eq_some_iff] at h
    obtain ⟨x, hx, h⟩ := h
    rw [ofRun_bind_eq_ok] at h
    obtain ⟨m, hm, h⟩ := h
    cases h
    exact .opened hscreen hx hm

end MainViewState

/-! ## What is listed and shown -/

/-- These events open a file that consists of the given Mach-O files. -/
def OpenedIn (g : Segmentation) (es : List MainEvent) (l : List MachoMetaData) : Prop :=
  ∃ name bytes, .closePanel (some (name, some bytes)) ∈ es ∧ Opens g name ⟨0, bytes⟩ l

/-- The invariant of the window. -/
structure MainInv (g : Segmentation) (es : List MainEvent) (s : MainViewState) : Prop where
  macho : ∀ m, s.selectedMacho = some m → ∃ l x, OpenedIn g es l ∧ x ∈ l ∧ x.macho = .ok m
  several : ∀ l, s.machoMetaDatas = some l → OpenedIn g es l
  listed : s.screen = .selection →
    OpenedIn g es (s.seletableMachoMetaDatas.map SeletableMachoMetaData.machoMetaData)
  /-- what is on the screen has been there ever since -/
  screen : (s.screen = .selection → s.machoMetaDatas.isSome = true) ∧
    (s.screen = .macho → s.selectedMacho.isSome = true)

namespace MainInv

variable {g : Segmentation} {es : List MainEvent} {e : MainEvent} {s t : MainViewState}

open MainViewState

theorem openedIn_append {l : List MachoMetaData} (h : OpenedIn g es l) (e : MainEvent) :
    OpenedIn g (es ++ [e]) l := by
  obtain ⟨name, bytes, hmem, hopens⟩ := h
  exact ⟨name, bytes, List.mem_append_left _ hmem, hopens⟩

/-- The rows of the list are not changed by a toggle. -/
theorem map_modify (l : List SeletableMachoMetaData) (index : Nat) :
    (l.modify index fun x => { x with selected := !x.selected }).map
      SeletableMachoMetaData.machoMetaData = l.map SeletableMachoMetaData.machoMetaData := by
  refine List.ext_getElem? fun i => ?_
  rw [List.getElem?_map, List.getElem?_map, List.getElem?_modify]
  by_cases hi : index = i
  · cases l[i]? <;> simp [hi]
  · cases l[i]? <;> simp [hi]

theorem step (h : MainInv g es s) (hchange : Change g s e t) : MainInv g (es ++ [e]) t := by
  obtain ⟨hmacho, hseveral, hlisted, hscreen⟩ := h
  have hmacho' : ∀ m, s.selectedMacho = some m →
      ∃ l x, OpenedIn g (es ++ [e]) l ∧ x ∈ l ∧ x.macho = .ok m := by
    intro m hm
    obtain ⟨l, x, hl, hx⟩ := hmacho m hm
    exact ⟨l, x, openedIn_append hl e, hx⟩
  have hseveral' : ∀ l, s.machoMetaDatas = some l → OpenedIn g (es ++ [e]) l :=
    fun l hl => openedIn_append (hseveral l hl) e
  have hlisted' : s.screen = .selection → OpenedIn g (es ++ [e])
      (s.seletableMachoMetaDatas.map SeletableMachoMetaData.machoMetaData) :=
    fun hs => openedIn_append (hlisted hs) e
  cases hchange with
  | clicked => exact ⟨hmacho', hseveral', hlisted', hscreen⟩
  | closed => exact ⟨hmacho', hseveral', hlisted', hscreen⟩
  | @single name bytes x m hpanels hopens hx =>
    refine ⟨?_, hseveral', hlisted', hscreen.1, fun _ => rfl⟩
    intro m' hm'
    cases hm'
    exact ⟨[x], x, ⟨name, bytes, by simp, hopens⟩, List.mem_singleton_self x, hx⟩
  | @several name bytes l hpanels hopens =>
    refine ⟨hmacho', ?_, hlisted', fun _ => rfl, hscreen.2⟩
    intro l' hl'
    cases hl'
    exact ⟨name, bytes, by simp, hopens⟩
  | updated =>
    cases hbody : s.body with
    | openFile =>
      rw [update_eq_clear hbody (by decide)]
      exact ⟨hmacho', hseveral', fun h => (by cases h), fun h => (by cases h), fun h => (by cases h)⟩
    | macho =>
      rw [update_eq_clear hbody (by decide)]
      exact ⟨hmacho', hseveral', fun h => (by cases h), fun h => (by cases h),
        fun _ => body_eq_macho.mp hbody⟩
    | selection =>
      rw [update_eq_selection hbody]
      have hsome := (body_eq_selection.mp hbody).2
      refine ⟨hmacho', hseveral', fun _ => ?_, fun _ => hsome, fun h => (by cases h)⟩
      by_cases hs : s.screen = .selection
      · rw [if_pos hs]
        exact hlisted' hs
      · obtain ⟨l, hl⟩ := Option.isSome_iff_exists.mp hsome
        rw [if_neg hs, selectionView, hl, Option.getD_some, List.map_map]
        simpa [Function.comp_def] using hseveral' l hl
  | toggled index hselection =>
    refine ⟨hmacho', hseveral', ?_, hscreen⟩
    intro hs
    rw [map_modify]
    exact hlisted' hs
  | @opened x m hselection hx hm =>
    refine ⟨?_, hseveral', hlisted', hscreen.1, fun _ => rfl⟩
    intro m' hm'
    cases hm'
    have hmem := List.mem_of_find?_eq_some hx
    exact ⟨_, _, hlisted' hselection, List.mem_map_of_mem hmem, hm⟩

theorem of_reached (h : Reached g es s) : MainInv g es s := by
  induction h with
  | start =>
    refine ⟨fun m hm => ?_, fun l hl => ?_, fun h => ?_, fun h => ?_, fun h => ?_⟩
    · cases hm
    · cases hl
    · cases h
    · cases h
    · cases h
  | event _ hstep ih => exact ih.step hstep.change

end MainInv

/-- **What is listed and shown was opened.** Take any order of events. The Mach-O file in the window is
made of a part of a file that was opened on the way, and so is every row of the list, if it is there. -/
theorem mainView_shows {g : Segmentation} {es : List MainEvent} {s : MainViewState}
    (h : MainViewState.Reached g es s) :
    (∀ m, s.selectedMacho = some m → ∃ name bytes x,
      .closePanel (some (name, some bytes)) ∈ es ∧ MachoMetaData.PartOf ⟨0, bytes⟩ x ∧
        Macho.init x.machoData x.fileName x.machoHeader = .ok m) ∧
    (s.screen = .selection → ∃ name bytes, .closePanel (some (name, some bytes)) ∈ es ∧
      Opens g name ⟨0, bytes⟩ (s.seletableMachoMetaDatas.map SeletableMachoMetaData.machoMetaData) ∧
      ∀ x ∈ s.seletableMachoMetaDatas, x.machoMetaData.PartOf ⟨0, bytes⟩) := by
  have hinv := MainInv.of_reached h
  constructor
  · intro m hm
    obtain ⟨l, x, ⟨name, bytes, hmem, hopens⟩, hx, hmacho⟩ := hinv.macho m hm
    exact ⟨name, bytes, x, hmem, hopens.leaves rfl x hx, hmacho⟩
  · intro hscreen
    obtain ⟨name, bytes, hmem, hopens⟩ := hinv.listed hscreen
    exact ⟨name, bytes, hmem, hopens, fun x hx =>
      hopens.leaves rfl x.machoMetaData (List.mem_map_of_mem hx)⟩

/-- The button is clicked and a file is chosen. -/
def openedWith (name : String) (bytes : List UInt8) : List MainEvent :=
  [.clickOpenFile, .closePanel (some (name, some bytes))]

/-- A file that can be opened is reached from the start. -/
theorem reached_openedWith {g : Segmentation} {fuel : Nat} {name : String} {bytes : List UInt8}
    {t : MainViewState} (h : MainViewState.init.openFile g fuel name (some bytes) = .ok t) :
    MainViewState.Reached g (openedWith name bytes) t := by
  have hclick : MainViewState.Step g .clickOpenFile .init { MainViewState.init with panels := 1 } :=
    ⟨fuel, rfl⟩
  have hclose : MainViewState.Step g (.closePanel (some (name, some bytes)))
      { MainViewState.init with panels := 1 } t := ⟨fuel, congrArg some h⟩
  exact .event (.event .start hclick) hclose

theorem mainView_shows_functionFile :
    ∃ s m x, MainViewState.Reached asciiSegmentation (openedWith "f" functionFile.bytes) s ∧
      s.selectedMacho = some m ∧ MachoMetaData.PartOf functionFile x ∧
      Macho.init x.machoData x.fileName x.machoHeader = .ok m := by
  have hopen : ((MainViewState.init.openFile asciiSegmentation 1 "f" (some functionFile.bytes)).toOption.bind
      fun s => s.selectedMacho).isSome = true := by decide +kernel
  obtain ⟨m, hm⟩ := Option.isSome_iff_exists.mp hopen
  obtain ⟨s, hs, hm⟩ := Option.bind_eq_some_iff.mp hm
  have hreached := reached_openedWith (toOption_eq_some.mp hs)
  obtain ⟨name, bytes, x, hmem, hpart, hinit⟩ := (mainView_shows hreached).1 m hm
  have hbytes : bytes = functionFile.bytes := by
    simp only [openedWith, List.mem_cons, List.not_mem_nil, or_false, MainEvent.closePanel.injEq,
      Option.some.injEq, Prod.mk.injEq, reduceCtorEq, false_or] at hmem
    exact hmem.2
  subst hbytes
  exact ⟨s, m, x, hreached, hm, hpart, hinit⟩

/-! ## What can still be shown -/

namespace MainViewState

variable {g : Segmentation} {s t : MainViewState}

/-- What the later states of a window without panels have in common with it. -/
structure Settled (s t : MainViewState) : Prop where
  panels : t.panels = 0
  screen : t.screen ≠ .openFile
  list : t.screen = .selection → s.screen = .selection ∧ t.machoMetaDatas.isSome = true ∧
    t.seletableMachoMetaDatas.map SeletableMachoMetaData.machoMetaData =
      s.seletableMachoMetaDatas.map SeletableMachoMetaData.machoMetaData
  shown : t.screen = .macho → t.selectedMacho.isSome = true
  macho : t.selectedMacho = s.selectedMacho ∨ (s.screen = .selection ∧
    ∃ x ∈ s.seletableMachoMetaDatas, ∃ m, x.machoMetaData.macho = .ok m ∧ t.selectedMacho = some m)

theorem Settled.update (h : Settled s t) : Settled s t.update := by
  cases hbody : t.body with
  | openFile =>
    -- one of the two variables is set
    exfalso
    cases hscreen : t.screen with
    | openFile => exact h.screen hscreen
    | selection =>
      have hlist := (h.list hscreen).2.1
      unfold body at hbody
      split_ifs at hbody
    | macho =>
      have hmacho := body_eq_macho.mpr (h.shown hscreen)
      rw [hbody] at hmacho
      cases hmacho
  | macho =>
    rw [update_eq_clear hbody (by decide)]
    refine ⟨h.panels, fun hno => ?_, fun hno => ?_, fun _ => body_eq_macho.mp hbody, h.macho⟩
    · cases hno
    · cases hno
  | selection =>
    rw [update_eq_selection hbody]
    have hscreen : t.screen = .selection := by
      cases hscreen : t.screen with
      | openFile => exact absurd hscreen h.screen
      | selection => rfl
      | macho =>
        have hmacho := body_eq_macho.mpr (h.shown hscreen)
        rw [hbody] at hmacho
        cases hmacho
    refine ⟨h.panels, fun hno => ?_, fun _ => ?_, fun hno => ?_, h.macho⟩
    · cases hno
    · rw [if_pos hscreen]
      exact h.list hscreen
    · cases hno

theorem Settled.step {e : MainEvent} (h : Settled s t) {u : MainViewState} (hchange : Change g t e u) :
    Settled s u := by
  have hpanels := h.panels
  cases hchange with
  | clicked hscreen => exact absurd hscreen h.screen
  | closed _ hpos | single hpos _ _ | several hpos _ _ => omega
  | updated => exact h.update
  | toggled index _ =>
    refine ⟨h.panels, h.screen, fun hscreen => ?_, h.shown, h.macho⟩
    rw [MainInv.map_modify]
    exact h.list hscreen
  | @opened x m hscreen hx hm =>
    refine ⟨h.panels, h.screen, h.list, fun _ => rfl, .inr ?_⟩
    obtain ⟨hselection, -, hlist⟩ := h.list hscreen
    have hmem : x.machoMetaData ∈ s.seletableMachoMetaDatas.map SeletableMachoMetaData.machoMetaData :=
      hlist ▸ List.mem_map_of_mem (List.mem_of_find?_eq_some hx)
    obtain ⟨y, hy, heq⟩ := List.mem_map.mp hmem
    exact ⟨hselection, y, hy, m, heq ▸ hm, rfl⟩

theorem Settled.later {u : MainViewState} (h : Settled s t) (hlater : Later g t u) : Settled s u := by
  induction hlater with
  | refl => exact h
  | tail _ hstep ih =>
    obtain ⟨e, he⟩ := hstep
    exact ih.step he.change

/-- The first `n` rows with the given selection. -/
def withFlags (f : Nat → Bool) (n : Nat) (l : List SeletableMachoMetaData) :
    List SeletableMachoMetaData :=
  l.mapIdx fun i x => if i < n then { x with selected := f i } else x

theorem withFlags_succ (f : Nat → Bool) (n : Nat) (l : List SeletableMachoMetaData) :
    withFlags f (n + 1) l = withFlags f n l ∨
      withFlags f (n + 1) l = (withFlags f n l).modify n fun x => { x with selected := !x.selected } := by
  have hlt : ∀ {i}, i ≠ n → (i < n + 1 ↔ i < n) := by omega
  by_cases hsame : ∀ x, l[n]? = some x → x.selected = f n
  · refine .inl (List.ext_getElem? fun i => ?_)
    rw [withFlags, withFlags, List.getElem?_mapIdx, List.getElem?_mapIdx]
    cases hx : l[i]? with
    | none => rfl
    | some x =>
      by_cases hi : i = n
      · subst hi
        simp [← hsame x hx]
      · simp [hlt hi]
  · refine .inr (List.ext_getElem? fun i => ?_)
    rw [List.getElem?_modify, withFlags, withFlags, List.getElem?_mapIdx, List.getElem?_mapIdx]
    cases hx : l[i]? with
    | none => rfl
    | some x =>
      by_cases hi : i = n
      · subst hi
        have hdiffers : x.selected ≠ f i := fun heq => hsame fun y hy => by
          rw [hx, Option.some_inj] at hy
          rwa [← hy]
        have hflag : (!x.selected) = f i := by
          cases hs : x.selected <;> cases hf : f i <;> simp_all
        simp [hflag]
      · simp [hlt hi, Ne.symm hi]

/-- Every selection of rows can be made. -/
theorem later_withFlags (hscreen : s.screen = .selection) (f : Nat → Bool) (n : Nat) :
    Later g s { s with seletableMachoMetaDatas := withFlags f n s.seletableMachoMetaDatas } := by
  induction n with
  | zero =>
    have hnone : withFlags f 0 s.seletableMachoMetaDatas = s.seletableMachoMetaDatas := by
      refine List.ext_getElem? fun i => ?_
      rw [withFlags, List.getElem?_mapIdx]
      cases s.seletableMachoMetaDatas[i]? <;> simp
    rw [hnone]
    exact .refl
  | succ n ih =>
    rcases withFlags_succ f n s.seletableMachoMetaDatas with heq | heq
    · rw [heq]
      exact ih
    · rw [heq]
      refine ih.tail ⟨.toggle n, 0, ?_⟩
      simp only [step]
      rw [if_pos hscreen]

/-- The window with row `i` alone selected. -/
def selectOnly (s : MainViewState) (i : Nat) : MainViewState :=
  let l := s.seletableMachoMetaDatas
  { s with seletableMachoMetaDatas := withFlags (fun j => j == i) l.length l }

theorem firstSelected_selectOnly {i : Nat} {x : SeletableMachoMetaData}
    (hx : s.seletableMachoMetaDatas[i]? = some x) :
    (s.selectOnly i).firstSelected = some { x with selected := true } := by
  have hlt := (List.getElem?_eq_some_iff.mp hx).1
  have hrow : ∀ j y, (s.selectOnly i).seletableMachoMetaDatas[j]? = some y → y.selected = (j == i) := by
    intro j y hy
    rw [selectOnly, withFlags, List.getElem?_mapIdx, Option.map_eq_some_iff] at hy
    obtain ⟨z, hz, rfl⟩ := hy
    rw [if_pos (List.getElem?_eq_some_iff.mp hz).1]
  have hi : (s.selectOnly i).seletableMachoMetaDatas[i]? = some { x with selected := true } := by
    rw [selectOnly, withFlags, List.getElem?_mapIdx, hx]
    simp [hlt]
  obtain ⟨hlt', hget⟩ := List.getElem?_eq_some_iff.mp hi
  unfold firstSelected
  rw [List.find?_eq_some_iff_getElem]
  refine ⟨rfl, i, hlt', hget, ?_⟩
  intro j hj
  rw [hrow j _ (List.getElem?_eq_getElem (hj.trans hlt'))]
  simp [Nat.ne_of_lt hj]

/-- A Mach-O file that is there is shown by the next update. -/
theorem later_shows {m : Macho} (h : s.selectedMacho = some m) :
    ∃ t, Later g s t ∧ t.screen = .macho ∧ t.selectedMacho = some m := by
  have hbody : s.body = .macho := body_eq_macho.mpr (by rw [h]; rfl)
  refine ⟨s.update, .single ⟨.update, 0, rfl⟩, ?_, ?_⟩
  · rw [update_eq_clear hbody (by decide)]
  · rw [update_eq_clear hbody (by decide)]
    exact h

/-- The Mach-O files that can still be shown, in a window that is where the button cannot be clicked. -/
theorem Settled.shows_iff (h : Settled s s) (m : Macho) :
    (∃ t, Later g s t ∧ t.screen = .macho ∧ t.selectedMacho = some m) ↔
      s.selectedMacho = some m ∨ (s.screen = .selection ∧
        ∃ x ∈ s.seletableMachoMetaDatas, x.machoMetaData.macho = .ok m) := by
  constructor
  · rintro ⟨t, hlater, -, ht⟩
    rcases (h.later hlater).macho with heq | ⟨hs, x, hx, m', hm', heq⟩
    · exact .inl (heq ▸ ht)
    · rw [heq, Option.some_inj] at ht
      exact .inr ⟨hs, x, hx, ht ▸ hm'⟩
  · rintro (hm | ⟨hs, x, hx, hm⟩)
    · exact later_shows hm
    · obtain ⟨i, hi⟩ := List.mem_iff_getElem?.mp hx
      have hopen : Step g .clickOpen (s.selectOnly i)
          { s.selectOnly i with selectedMacho := some m } := by
        refine ⟨0, ?_⟩
        have hselection : (s.selectOnly i).screen = .selection := hs
        simp only [MainViewState.step]
        rw [if_pos hselection, firstSelected_selectOnly hi, Option.map_some, hm]
        rfl
      obtain ⟨t, hlater, hshown⟩ := later_shows (g := g)
        (s := { s.selectOnly i with selectedMacho := some m }) rfl
      exact ⟨t, ((later_withFlags hs _ _).tail ⟨_, hopen⟩).trans hlater, hshown⟩

end MainViewState

open MainViewState in
/-- **What can still be shown.** In a window that has left the button and has no panel open, a Mach-O file
can be shown exactly if it is there already or one of the rows of the list opens as it. With an empty list
nothing can. -/
theorem mainView_offers {g : Segmentation} {es : List MainEvent} {s : MainViewState}
    (h : Reached g es s) (hpanels : s.panels = 0) (hscreen : s.screen ≠ .openFile) (m : Macho) :
    (∃ t, Later g s t ∧ t.screen = .macho ∧ t.selectedMacho = some m) ↔
      s.selectedMacho = some m ∨ (s.screen = .selection ∧
        ∃ x ∈ s.seletableMachoMetaDatas, x.machoMetaData.macho = .ok m) := by
  have hinv := MainInv.of_reached h
  have hstart : Settled s s := ⟨hpanels, hscreen, fun hs => ⟨hs, hinv.screen.1 hs, rfl⟩,
    hinv.screen.2, .inl rfl⟩
  exact hstart.shows_iff m

/-- A fat file without slices. -/
def emptyFat : List UInt8 := FatBinary.magic ++ [0, 0, 0, 0]

/-- It is listed as nothing, and from then on no file can be opened in the window. -/
theorem mainView_offers_emptyFat :
    ∃ s, MainViewState.Reached asciiSegmentation (openedWith "e" emptyFat ++ [.update]) s ∧
      s.screen = .selection ∧ ∀ m, ¬ ∃ t, MainViewState.Later asciiSegmentation s t ∧
        t.screen = .macho ∧ t.selectedMacho = some m := by
  have hopen : (MainViewState.init.openFile asciiSegmentation 1 "e" (some emptyFat)).toOption.map
      (fun s => (s.update.selectedMacho.isNone, s.update.screen, s.update.seletableMachoMetaDatas.isEmpty,
        s.update.panels)) = some (true, .selection, true, 0) := by decide +kernel
  obtain ⟨s, hs, hfacts⟩ := Option.map_eq_some_iff.mp hopen
  simp only [Prod.mk.injEq] at hfacts
  obtain ⟨hmacho, hscreen, hlist, hpanels⟩ := hfacts
  have hreached : MainViewState.Reached asciiSegmentation (openedWith "e" emptyFat ++ [.update])
      s.update := .event (reached_openedWith (toOption_eq_some.mp hs)) ⟨0, rfl⟩
  refine ⟨s.update, hreached, hscreen, fun m => ?_⟩
  rw [mainView_offers hreached hpanels (by rw [hscreen]; decide) m]
  rintro (hm | ⟨-, x, hx, -⟩)
  · rw [hm] at hmacho
    cases hmacho
  · rw [List.isEmpty_iff.mp hlist] at hx
    exact absurd hx List.not_mem_nil

end Mocha
