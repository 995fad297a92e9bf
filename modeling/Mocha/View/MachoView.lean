import Mocha.Macho.Loading
import Mocha.View.Rows

/-!
# The window of a file (`MachoView`, `ComponentListView`, `TranslationsView`, `HexFiendViewController`)

The window has three columns: the list of components, the rows of the selected component, and the bytes
of the file with two marks, one for the bytes of the component and one for those of the selected row. No
column calls another one. They share `@State` variables, and what follows from a change is written as an
`onChange` observer: when the view is updated and a value differs from the one the observer saw last, the
observer's closure runs with the new value. Jobs finish while all of this happens.

`MachoViewState` is the state of the window together with that of the scheduler, and `step` its events: a
step of the scheduler, a tap on a cell or on a row, and the update of one observer. Nothing is assumed
about when the observers run, or in which order: each is an event of its own.

* **`machoView_safe`**: in every state some order of events leads to, nothing but a job can trap, and no job
  does if every component of the file has what it needs; only the header and components that are done are
  ever selected; and once no observer has anything left to see, the marks are the bytes of the selected
  component and the range of its selected row.
* **`settle_settled`**: three updates are enough to get there, from wherever the window is.
* **`tapRow_marks`**: so a tap on any row of a window at rest ends with the bytes of that row marked.
-/

namespace Mocha

open Lib

/-! ## The bytes (`HexFiendViewController`) -/

/-- `HFRange`. -/
structure HFRange where
  location : Nat
  length : Nat
  deriving DecidableEq, Repr

/-- `hfRangeWrapper(from:)`. -/
def hfRangeWrapper (range : Span) : HFRange := ⟨range.lower, range.upper - range.lower⟩

/-- `HexFiendViewController`, with the properties of its `hfController` that it sets. -/
structure HexFiendViewController where
  selectedDataRange : Option Span
  selectedComponentDataRange : Option Span
  selectedContentsRanges : List HFRange
  colorRanges : List HFRange
  /-- the range of the last call of `scrollHexView(basedOn:)` -/
  scrolledTo : Option Span
  deriving DecidableEq, Repr

namespace HexFiendViewController

/-- `HexFiendViewController(data:)`; an `HFController` starts with the empty selection at 0. -/
def init : HexFiendViewController := ⟨none, none, [⟨0, 0⟩], [], none⟩

variable (c : HexFiendViewController)

/-- `scrollIfNeeded()`. -/
def scrollIfNeeded : HexFiendViewController :=
  match c.selectedDataRange with
  | some range => { c with scrolledTo := some range }
  | none =>
    match c.selectedComponentDataRange with
    | some range => { c with scrolledTo := some range }
    | none => c

/-- `selectedDataRange { didSet { … } }`. -/
def setSelectedDataRange (newValue : Option Span) : HexFiendViewController :=
  match newValue with
  | some range => scrollIfNeeded { c with
      selectedDataRange := newValue
      selectedContentsRanges := [hfRangeWrapper range] }
  | none => scrollIfNeeded { c with
      selectedDataRange := newValue
      selectedContentsRanges := [⟨0, 0⟩] }

/-- `selectedComponentDataRange { didSet { … } }`. -/
def setSelectedComponentDataRange (newValue : Option Span) : HexFiendViewController :=
  match newValue with
  | some range => scrollIfNeeded { c with
      selectedComponentDataRange := newValue
      colorRanges := [hfRangeWrapper range] }
  | none => scrollIfNeeded { c with selectedComponentDataRange := newValue }

/-- What the controller shows for a component's range and the range of a row. -/
structure Shows (component : Span) (row : Option Span) : Prop where
  selectedDataRange : c.selectedDataRange = row
  selectedComponentDataRange : c.selectedComponentDataRange = some component
  selectedContentsRanges : c.selectedContentsRanges = [(row.map hfRangeWrapper).getD ⟨0, 0⟩]
  colorRanges : c.colorRanges = [hfRangeWrapper component]
  scrolledTo : c.scrolledTo = some (row.getD component)

variable {c} {component : Span} {row : Option Span}

/-- Setting one of the two leaves the other as it is shown. -/
theorem Shows.setRow (h : c.Shows component row) (newValue : Option Span) :
    (c.setSelectedDataRange newValue).Shows component newValue := by
  obtain ⟨-, h2, -, h4, -⟩ := h
  cases newValue with
  | some range => exact ⟨rfl, h2, rfl, h4, rfl⟩
  | none =>
    unfold setSelectedDataRange scrollIfNeeded
    simp only [h2]
    exact ⟨rfl, rfl, rfl, h4, rfl⟩

theorem Shows.setComponent (h : c.Shows component row) (newValue : Span) :
    (c.setSelectedComponentDataRange (some newValue)).Shows newValue row := by
  obtain ⟨h1, -, h3, -, -⟩ := h
  unfold setSelectedComponentDataRange scrollIfNeeded
  cases row with
  | some range =>
    simp only [h1]
    exact ⟨rfl, rfl, h3, rfl, rfl⟩
  | none =>
    simp only [h1]
    exact ⟨rfl, rfl, h3, rfl, rfl⟩

end HexFiendViewController

/-- `dataRangeInMacho` of a component. -/
def MachoComponent.dataRangeInMacho (c : MachoComponent) : Span := Span.of c.offsetInMacho c.dataSize

/-- `dataRangeInMacho` of the component at a position. -/
def Macho.dataRangeInMacho (m : Macho) (i : Nat) : Span :=
  (m.allComponents[i]?.map MachoComponent.dataRangeInMacho).getD ⟨0, 0⟩

/-! ## The jobs -/

/-- What a piece of work traps with, if it does. -/
def trapOf {α : Type} : Run α → Option Trap
  | .ok _ => none
  | .error trap => some trap

theorem trapOf_eq_some {α : Type} {x : Run α} {trap : Trap} : trapOf x = some trap ↔ x = .error trap := by
  cases x <;> simp [trapOf]

section Work

variable (m : Macho) (stack : Nat) (s : State Nat ComponentState (List TranslationGroup))

/-- What a job of the pool traps with, if it does. -/
def Macho.jobTrap (index : Nat) : Option Trap :=
  match s.jobs[index]? with
  | some (i, .preparing) =>
    m.allComponents[i]?.bind fun c => trapOf (c.runInitializing stack (m.view s.states))
  | some (i, .translating) =>
    m.allComponents[i]?.bind fun c => trapOf (c.runTranslating (m.view s.states) (s.states i))
  | _ => none

/-- A step of the scheduler: nothing if it cannot be made now, and a trap if the job traps. -/
def Macho.work (choice : Plan.Choice) : Option (Run (State Nat ComponentState (List TranslationGroup))) :=
  match (m.plan stack).step? s choice with
  | some t => some (.ok t)
  | none =>
    match choice with
    | .main => none
    | .job index => (m.jobTrap stack s index).map .error

variable {m stack s} {i : Nat} {c : MachoComponent}

theorem prepare_eq_none_iff (hc : m.allComponents[i]? = some c) {states : Nat → ComponentState} :
    (m.plan stack).prepare states i = none ↔ ∃ trap, c.runInitializing stack (m.view states) = .error trap := by
  simp only [exists_error_iff, Option.eq_none_iff_forall_ne_some, ne_eq, plan_prepare_eq_some hc]

theorem translate_eq_none_iff (hc : m.allComponents[i]? = some c) {states : Nat → ComponentState} :
    (m.plan stack).translate states i = none ↔
      ∃ trap, c.runTranslating (m.view states) (states i) = .error trap := by
  simp only [exists_error_iff, Option.eq_none_iff_forall_ne_some, ne_eq, plan_translate_eq_some hc]

theorem work_eq_ok {choice : Plan.Choice} {t : State Nat ComponentState (List TranslationGroup)} :
    m.work stack s choice = some (.ok t) ↔ (m.plan stack).step? s choice = some t := by
  unfold Macho.work
  cases (m.plan stack).step? s choice with
  | some u => simp
  | none => cases choice <;> simp

theorem work_eq_trap {index : Nat} {trap : Trap} (hstep : (m.plan stack).step? s (.job index) = none)
    (htrap : m.jobTrap stack s index = some trap) : m.work stack s (.job index) = some (.error trap) := by
  simp only [Macho.work, hstep, htrap, Option.map_some]

/-- A step of the scheduler that traps is that of a job that does not return. -/
theorem traps_of_work {choice : Plan.Choice} {trap : Trap}
    (h : m.work stack s choice = some (.error trap)) : (m.plan stack).Traps s := by
  unfold Macho.work at h
  split at h
  · cases h
  · cases choice with
    | main => cases h
    | job index =>
      simp only [Option.map_eq_some_iff, Except.error.injEq, exists_eq_right] at h
      unfold Macho.jobTrap at h
      split at h
      · rename_i i hjob
        obtain ⟨c, hc, htrap⟩ := Option.bind_eq_some_iff.mp h
        have hnone : (m.plan stack).prepare s.states i = none :=
          (prepare_eq_none_iff hc).mpr ⟨trap, trapOf_eq_some.mp htrap⟩
        exact ⟨i, .inl ⟨List.mem_of_getElem? hjob, hnone⟩⟩
      · rename_i i hjob
        obtain ⟨c, hc, htrap⟩ := Option.bind_eq_some_iff.mp h
        have hnone : (m.plan stack).translate s.states i = none :=
          (translate_eq_none_iff hc).mpr ⟨trap, trapOf_eq_some.mp htrap⟩
        exact ⟨i, .inr ⟨List.mem_of_getElem? hjob, hnone⟩⟩
      · cases h

/-- A job that does not return makes a step of the scheduler trap. -/
theorem work_of_traps (hwf : (m.plan stack).Wf) (hs : (m.plan stack).Reachable s)
    (htraps : (m.plan stack).Traps s) : ∃ choice trap, m.work stack s choice = some (.error trap) := by
  have hcomponent : ∀ {i stage}, (i, stage) ∈ s.jobs → ∃ c, m.allComponents[i]? = some c := by
    intro i stage hjob
    have hmem := hs.job_component hwf hjob
    exact ⟨_, List.getElem?_eq_getElem (mem_plan_components.mp hmem)⟩
  obtain ⟨i, ⟨hjob, hnone⟩ | ⟨hjob, hnone⟩⟩ := htraps
  · obtain ⟨c, hc⟩ := hcomponent hjob
    obtain ⟨trap, htrap⟩ := (prepare_eq_none_iff hc).mp hnone
    obtain ⟨index, hindex⟩ := List.mem_iff_getElem?.mp hjob
    refine ⟨.job index, trap, work_eq_trap ?_ ?_⟩
    · simp only [Plan.step?, hindex, Plan.jobStep, hnone, Option.map_none]
    · simp only [Macho.jobTrap, hindex, hc, Option.bind_some, htrap, trapOf]
  · obtain ⟨c, hc⟩ := hcomponent hjob
    obtain ⟨trap, htrap⟩ := (translate_eq_none_iff hc).mp hnone
    obtain ⟨index, hindex⟩ := List.mem_iff_getElem?.mp hjob
    refine ⟨.job index, trap, work_eq_trap ?_ ?_⟩
    · simp only [Plan.step?, hindex, Plan.jobStep, hnone, Option.map_none]
    · simp only [Macho.jobTrap, hindex, hc, Option.bind_some, htrap, trapOf]

end Work

/-! ## The window -/

/-- The `@State` of the views, what their observers saw last, and the state of the scheduler. -/
structure MachoViewState where
  schedule : State Nat ComponentState (List TranslationGroup)
  /-- `isDone` of the cell of each component, once the list has made the cell -/
  cells : Nat → Option Bool
  alertPresented : Bool
  selectedMachoComponent : Nat
  selectedDataRange : Option Span
  selectedIndexPath : Option (Nat × Nat)
  /-- the component `TranslationsView` shows the rows of; none while it shows a `ProgressView` -/
  shown : Option Nat
  /-- what `onChange(of: selectedDataRange)` saw last -/
  seenDataRange : Option Span
  /-- what `onChange(of: selectedMachoComponent)` saw last -/
  seenMachoComponent : Nat
  hexFiendViewController : HexFiendViewController

/-- What can happen. -/
inductive ViewEvent where
  /-- the main thread or a job makes a step -/
  | work (choice : Plan.Choice)
  /-- the list makes the cell of a component, or the cell's `onChange(of: initProgress.isDone)` runs -/
  | updateCell (component : Nat)
  | tapCell (component : Nat)
  | dismissAlert
  /-- `TranslationsView` is updated -/
  | updateRows
  | tapRow (indexPath : Nat × Nat)
  /-- `onChange(of: selectedDataRange)` -/
  | observeDataRange
  /-- `onChange(of: selectedMachoComponent)` -/
  | observeMachoComponent

namespace MachoViewState

/-- `initProgress.isDone` of a component. -/
def isDone (v : MachoViewState) (i : Nat) : Bool := (v.schedule.cells i).isDone

variable (cs : CapStone) (m : Macho) (stack : Nat)

/-- `MachoView(_:)`, at some moment of the initialization: the header is selected. -/
def init (schedule : State Nat ComponentState (List TranslationGroup)) : MachoViewState where
  schedule := schedule
  cells _ := none
  alertPresented := false
  selectedMachoComponent := 0
  selectedDataRange := none
  selectedIndexPath := none
  shown := none
  seenDataRange := none
  seenMachoComponent := 0
  hexFiendViewController :=
    HexFiendViewController.init.setSelectedComponentDataRange (some (m.dataRangeInMacho 0))

variable (v : MachoViewState)

/-- The update of `TranslationsView`. Its observer belongs to the rows: it is not there while the
`ProgressView` is shown, and starts with the component that is shown first. -/
def updateRows : Run MachoViewState :=
  if v.isDone v.selectedMachoComponent = false then .ok { v with shown := none }
  else do
    let _ ← (m.source cs v.schedule v.selectedMachoComponent).indexPaths
    match v.shown with
    | none => return { v with shown := some v.selectedMachoComponent }
    | some a =>
      if a = v.selectedMachoComponent then return v
      else return { v with
        shown := some v.selectedMachoComponent
        selectedIndexPath := none
        selectedDataRange := none }

/-- The tap on a cell that is there. -/
def tapCell (i : Nat) (isDone : Bool) : MachoViewState :=
  if isDone = false then { v with alertPresented := true }
  else if i = v.selectedMachoComponent then v
  else { v with selectedMachoComponent := i }

/-- The row is selected. -/
def select (indexPath : Nat × Nat) (range : Span) : MachoViewState :=
  { v with selectedIndexPath := some indexPath, selectedDataRange := some range }

/-- The tap on a row of the component that is shown. -/
def tapRow (a : Nat) (indexPath : Nat × Nat) : Run MachoViewState := do
  let translation ← (m.source cs v.schedule a).translation indexPath
  let range ← unwrap translation.dataRangeInMacho
  return v.select indexPath range

/-- `onChange(of: selectedDataRange)`. -/
def observeDataRange : MachoViewState :=
  if v.seenDataRange = v.selectedDataRange then v
  else { v with
    seenDataRange := v.selectedDataRange
    hexFiendViewController := v.hexFiendViewController.setSelectedDataRange v.selectedDataRange }

/-- `onChange(of: selectedMachoComponent)`. -/
def observeMachoComponent : MachoViewState :=
  if v.seenMachoComponent = v.selectedMachoComponent then v
  else { v with
    seenMachoComponent := v.selectedMachoComponent
    hexFiendViewController := v.hexFiendViewController.setSelectedComponentDataRange
      (some (m.dataRangeInMacho v.selectedMachoComponent)) }

/-- The rows that are on the screen. -/
def hasRow (a : Nat) (indexPath : Nat × Nat) : Bool :=
  match (m.source cs v.schedule a).indexPaths with
  | .ok paths => paths.contains indexPath
  | .error _ => false

/-- What an event does: nothing if it cannot happen now, and a trap if the program traps. -/
def step : ViewEvent → Option (Run MachoViewState)
  | .work choice => (m.work stack v.schedule choice).map fun r => r.map fun s => { v with schedule := s }
  | .updateCell i =>
    if i < m.allComponents.length then
      some (.ok { v with cells := Function.update v.cells i (some (v.isDone i)) })
    else none
  | .tapCell i => (v.cells i).map fun isDone => .ok (v.tapCell i isDone)
  | .dismissAlert => some (.ok { v with alertPresented := false })
  | .updateRows => some (v.updateRows cs m)
  | .tapRow indexPath =>
    match v.shown with
    | some a => if v.hasRow cs m a indexPath then some (v.tapRow cs m a indexPath) else none
    | none => none
  | .observeDataRange => some (.ok v.observeDataRange)
  | .observeMachoComponent => some (.ok (v.observeMachoComponent m))

/-- One event. -/
def Step (v w : MachoViewState) : Prop := ∃ e, v.step cs m stack e = some (.ok w)

/-- The states some order of events leads to, from a window that was opened at any moment. -/
def Reachable (v : MachoViewState) : Prop :=
  ∃ s, (m.plan stack).Reachable s ∧ Relation.ReflTransGen (Step cs m stack) (init m s) v

/-- Some events that can happen one after the other. -/
def Steps : MachoViewState → MachoViewState → Prop := Relation.ReflTransGen (Step cs m stack)

/-- No observer has anything left to see. -/
structure Settled : Prop where
  rows : v.shown = if v.isDone v.selectedMachoComponent then some v.selectedMachoComponent else none
  dataRange : v.seenDataRange = v.selectedDataRange
  machoComponent : v.seenMachoComponent = v.selectedMachoComponent

/-- The updates that are due. -/
def settle : Run MachoViewState := do
  let v ← v.updateRows cs m
  return (v.observeMachoComponent m).observeDataRange

end MachoViewState

/-! ## What holds in every state -/

/-- The invariant of the window. -/
structure ViewInv (cs : CapStone) (m : Macho) (stack : Nat) (v : MachoViewState) : Prop where
  schedule : (m.plan stack).Reachable v.schedule
  /-- a cell learns that its component is done, if at all, after it is -/
  cells : ∀ i x, v.cells i = some x → i < m.allComponents.length ∧ (x = true → v.isDone i = true)
  selected : v.selectedMachoComponent < m.allComponents.length ∧
    (v.selectedMachoComponent = 0 ∨ v.isDone v.selectedMachoComponent = true)
  /-- rows are shown only of a component that is done, and not before the selected one is -/
  shown : ∀ a, v.shown = some a → a < m.allComponents.length ∧ v.isDone a = true ∧
    v.isDone v.selectedMachoComponent = true
  /-- the selected range is the one of the selected row of the component that is shown -/
  noRow : v.selectedIndexPath = none → v.selectedDataRange = none
  row : ∀ path, v.selectedIndexPath = some path → ∃ a t range, v.shown = some a ∧
    (m.source cs v.schedule a).translation path = .ok t ∧ t.dataRangeInMacho = some range ∧
    v.selectedDataRange = some range
  /-- the controller shows what the observers saw last -/
  controller : v.hexFiendViewController.Shows (m.dataRangeInMacho v.seenMachoComponent) v.seenDataRange

namespace ViewInv

variable {cs : CapStone} {m : Macho} {stack : Nat} {v w : MachoViewState}

theorem start (hpos : 0 < m.allComponents.length) {s : State Nat ComponentState (List TranslationGroup)}
    (hs : (m.plan stack).Reachable s) : ViewInv cs m stack (.init m s) where
  schedule := hs
  cells i x h := by cases h
  selected := ⟨hpos, .inl rfl⟩
  shown a h := by cases h
  noRow _ := rfl
  row path h := by cases h
  controller := ⟨rfl, rfl, rfl, rfl, rfl⟩

/-- A step of the scheduler changes nothing of a component that is done. -/
theorem work (hwf : (m.plan stack).Wf) (h : ViewInv cs m stack v)
    {s : State Nat ComponentState (List TranslationGroup)} (hstep : (m.plan stack).Step v.schedule s) :
    ViewInv cs m stack { v with schedule := s } := by
  have hstays : ∀ {i}, v.isDone i = true → MachoViewState.isDone { v with schedule := s } i = true :=
    fun hdone => (h.schedule.done_stays hwf hstep hdone).1
  refine ⟨h.schedule.tail hstep, ?_, ⟨h.selected.1, h.selected.2.imp_right hstays⟩, ?_, h.noRow, ?_,
    h.controller⟩
  · intro i x hx
    obtain ⟨hi, hdone⟩ := h.cells i x hx
    exact ⟨hi, fun hx => hstays (hdone hx)⟩
  · intro a ha
    obtain ⟨hmem, hdone, hselected⟩ := h.shown a ha
    exact ⟨hmem, hstays hdone, hstays hselected⟩
  · intro path hpath
    obtain ⟨a, t, range, ha, ht, hrange, hdata⟩ := h.row path hpath
    obtain ⟨-, hgroups, hprepared⟩ := h.schedule.done_stays hwf hstep (h.shown a ha).2.1
    refine ⟨a, t, range, ha, ?_, hrange, hdata⟩
    rwa [source_congr hgroups hprepared]

theorem updateCell (h : ViewInv cs m stack v) {i : Nat} (hi : i < m.allComponents.length) :
    ViewInv cs m stack { v with cells := Function.update v.cells i (some (v.isDone i)) } := by
  refine ⟨h.schedule, ?_, h.selected, h.shown, h.noRow, h.row, h.controller⟩
  intro j x hx
  by_cases hj : j = i
  · subst hj
    simp only [Function.update_self, Option.some.injEq] at hx
    exact ⟨hi, fun hdone => hx.trans hdone⟩
  · simp only [Function.update_of_ne hj] at hx
    exact h.cells j x hx

/-- A tap selects a component only if its cell has learned that it is done. -/
theorem tapCell (h : ViewInv cs m stack v) {i : Nat} {x : Bool} (hx : v.cells i = some x) :
    ViewInv cs m stack (v.tapCell i x) := by
  unfold MachoViewState.tapCell
  obtain ⟨hi, hdone⟩ := h.cells i x hx
  by_cases hfalse : x = false
  · rw [if_pos hfalse]
    exact ⟨h.schedule, h.cells, h.selected, h.shown, h.noRow, h.row, h.controller⟩
  · have hdone := hdone (Bool.eq_true_of_not_eq_false hfalse)
    rw [if_neg hfalse]
    by_cases hsame : i = v.selectedMachoComponent
    · rwa [if_pos hsame]
    · rw [if_neg hsame]
      refine ⟨h.schedule, h.cells, ⟨hi, .inr hdone⟩, ?_, h.noRow, h.row, h.controller⟩
      intro a ha
      obtain ⟨hmem, hshown, -⟩ := h.shown a ha
      exact ⟨hmem, hshown, hdone⟩

/-- The rows of a component that is done are there. -/
theorem rows_complete (hwf : (m.plan stack).Wf) (hfit : m.AddressesFit) (h : ViewInv cs m stack v)
    {a : Nat} (ha : a < m.allComponents.length) (hdone : v.isDone a = true) :
    (m.source cs v.schedule a).Complete := by
  obtain ⟨paths, ranges, hrows⟩ := source_rows hwf hfit h.schedule (List.getElem?_eq_getElem ha) hdone
  exact hrows.complete

/-- The update of the rows does not trap, and the rows are the selected component's from then on. -/
theorem updateRows (hwf : (m.plan stack).Wf) (hfit : m.AddressesFit) (h : ViewInv cs m stack v) :
    ∃ w, v.updateRows cs m = .ok w ∧ ViewInv cs m stack w ∧
      w.selectedMachoComponent = v.selectedMachoComponent ∧ w.schedule = v.schedule ∧
      w.shown = if v.isDone v.selectedMachoComponent then some v.selectedMachoComponent else none := by
  unfold MachoViewState.updateRows
  cases hdone : v.isDone v.selectedMachoComponent with
  | false =>
    -- the rows of no other component can be shown then
    have hnone : v.shown = none := by
      cases hshown : v.shown with
      | none => rfl
      | some a =>
        have hselected := (h.shown a hshown).2.2
        rw [hdone] at hselected
        cases hselected
    have hsame : { v with shown := none } = v := by rw [← hnone]
    rw [if_pos rfl, hsame]
    exact ⟨v, rfl, h, rfl, rfl, hnone⟩
  | true =>
    obtain ⟨paths, hpaths, -⟩ := h.rows_complete hwf hfit h.selected.1 hdone
    have hfrom : ∀ a, some v.selectedMachoComponent = some a → a < m.allComponents.length ∧
        v.isDone a = true ∧ v.isDone v.selectedMachoComponent = true := by
      rintro a ha
      cases ha
      exact ⟨h.selected.1, hdone, hdone⟩
    rw [if_neg (by simp), hpaths]
    simp only [ok_bind, if_true]
    cases hshown : v.shown with
    | none =>
      have hno : v.selectedIndexPath = none := by
        cases hpath : v.selectedIndexPath with
        | none => rfl
        | some path =>
          obtain ⟨a, t, range, ha, -⟩ := h.row path hpath
          rw [hshown] at ha
          cases ha
      refine ⟨_, rfl, ⟨h.schedule, h.cells, h.selected, hfrom, h.noRow, ?_, h.controller⟩, rfl, rfl, rfl⟩
      intro path hpath
      rw [hno] at hpath
      cases hpath
    | some a =>
      by_cases ha : a = v.selectedMachoComponent
      · simp only [if_pos ha]
        exact ⟨v, rfl, h, rfl, rfl, ha ▸ hshown⟩
      · simp only [if_neg ha]
        refine ⟨_, rfl, ⟨h.schedule, h.cells, h.selected, hfrom, fun _ => rfl, ?_, h.controller⟩, rfl,
          rfl, rfl⟩
        intro path hpath
        cases hpath

/-- A tap on a row of the screen does not trap. -/
theorem tapRow (hwf : (m.plan stack).Wf) (hfit : m.AddressesFit) (h : ViewInv cs m stack v) {a : Nat}
    (ha : v.shown = some a) {path : Nat × Nat} (hrow : v.hasRow cs m a path = true) :
    ∃ t range, (m.source cs v.schedule a).translation path = .ok t ∧ t.dataRangeInMacho = some range ∧
      v.tapRow cs m a path = .ok (v.select path range) ∧ ViewInv cs m stack (v.select path range) := by
  obtain ⟨hmem, hdone, -⟩ := h.shown a ha
  obtain ⟨paths, hpaths, hrows⟩ := h.rows_complete hwf hfit hmem hdone
  have hpath : path ∈ paths := by
    unfold MachoViewState.hasRow at hrow
    simp only [hpaths, List.contains_iff_mem] at hrow
    exact hrow
  obtain ⟨t, range, ht, hrange⟩ := hrows path hpath
  refine ⟨t, range, ht, hrange, ?_, ⟨h.schedule, h.cells, h.selected, h.shown, ?_, ?_, h.controller⟩⟩
  · unfold MachoViewState.tapRow
    rw [ht, ok_bind, hrange]
    rfl
  · intro hno
    cases hno
  · intro p hp
    cases hp
    exact ⟨a, t, range, ha, ht, hrange, rfl⟩

theorem observeDataRange (h : ViewInv cs m stack v) : ViewInv cs m stack v.observeDataRange := by
  unfold MachoViewState.observeDataRange
  by_cases hsame : v.seenDataRange = v.selectedDataRange
  · rwa [if_pos hsame]
  · rw [if_neg hsame]
    exact ⟨h.schedule, h.cells, h.selected, h.shown, h.noRow, h.row, h.controller.setRow _⟩

theorem observeMachoComponent (h : ViewInv cs m stack v) :
    ViewInv cs m stack (v.observeMachoComponent m) := by
  unfold MachoViewState.observeMachoComponent
  by_cases hsame : v.seenMachoComponent = v.selectedMachoComponent
  · rwa [if_pos hsame]
  · rw [if_neg hsame]
    exact ⟨h.schedule, h.cells, h.selected, h.shown, h.noRow, h.row, h.controller.setComponent _⟩

/-- **No event but the step of a job traps, and every event keeps the invariant.** -/
theorem step (hwf : (m.plan stack).Wf) (hfit : m.AddressesFit) (h : ViewInv cs m stack v) {e : ViewEvent}
    {r : Run MachoViewState} (hr : v.step cs m stack e = some r) :
    (∃ w, r = .ok w ∧ ViewInv cs m stack w) ∨
      ∃ choice trap, e = .work choice ∧ r = .error trap ∧ (m.plan stack).Traps v.schedule := by
  cases e with
  | work choice =>
    rw [MachoViewState.step, Option.map_eq_some_iff] at hr
    obtain ⟨u, hu, rfl⟩ := hr
    cases u with
    | ok s => exact .inl ⟨_, rfl, h.work hwf ⟨choice, work_eq_ok.mp hu⟩⟩
    | error trap => exact .inr ⟨choice, trap, rfl, rfl, traps_of_work hu⟩
  | updateCell i =>
    simp only [MachoViewState.step] at hr
    by_cases hi : i < m.allComponents.length
    · rw [if_pos hi] at hr
      cases hr
      exact .inl ⟨_, rfl, h.updateCell hi⟩
    · rw [if_neg hi] at hr
      cases hr
  | tapCell i =>
    rw [MachoViewState.step, Option.map_eq_some_iff] at hr
    obtain ⟨x, hx, rfl⟩ := hr
    exact .inl ⟨_, rfl, h.tapCell hx⟩
  | dismissAlert =>
    cases hr
    exact .inl ⟨_, rfl, h.schedule, h.cells, h.selected, h.shown, h.noRow, h.row, h.controller⟩
  | updateRows =>
    cases hr
    obtain ⟨w, hw, hinv, -⟩ := h.updateRows hwf hfit
    exact .inl ⟨w, hw, hinv⟩
  | tapRow path =>
    simp only [MachoViewState.step] at hr
    cases hshown : v.shown with
    | none =>
      rw [hshown] at hr
      cases hr
    | some a =>
      simp only [hshown] at hr
      by_cases hrow : v.hasRow cs m a path = true
      · rw [if_pos hrow] at hr
        cases hr
        obtain ⟨t, range, -, -, htap, hinv⟩ := h.tapRow hwf hfit hshown hrow
        exact .inl ⟨_, htap, hinv⟩
      · rw [if_neg hrow] at hr
        cases hr
  | observeDataRange =>
    cases hr
    exact .inl ⟨_, rfl, h.observeDataRange⟩
  | observeMachoComponent =>
    cases hr
    exact .inl ⟨_, rfl, h.observeMachoComponent⟩

end ViewInv

section Results

variable {cs : CapStone} {m : Macho} {stack : Nat} {v : MachoViewState}

theorem allComponents_pos (m : Macho) : 0 < m.allComponents.length := by
  simp only [Macho.allComponents, List.length_append, List.length_singleton]
  omega

/-- **The invariant holds whatever happens, in whatever order.** -/
theorem MachoViewState.Reachable.inv (hwf : (m.plan stack).Wf) (hfit : m.AddressesFit)
    (hv : MachoViewState.Reachable cs m stack v) : ViewInv cs m stack v := by
  obtain ⟨s, hs, hv⟩ := hv
  induction hv with
  | refl => exact ViewInv.start (allComponents_pos m) hs
  | tail _ hstep ih =>
    obtain ⟨e, he⟩ := hstep
    rcases ih.step hwf hfit he with ⟨w, hw, hinv⟩ | ⟨_, _, -, htrap, -⟩
    · cases hw
      exact hinv
    · cases htrap

theorem MachoViewState.Reachable.next {w : MachoViewState} {e : ViewEvent}
    (hv : MachoViewState.Reachable cs m stack v) (he : v.step cs m stack e = some (.ok w)) :
    MachoViewState.Reachable cs m stack w := by
  obtain ⟨s, hs, hv⟩ := hv
  exact ⟨s, hs, hv.tail ⟨e, he⟩⟩

/-- The jobs go on. -/
theorem MachoViewState.steps_work {choices : List Plan.Choice}
    {s : State Nat ComponentState (List TranslationGroup)}
    (h : (m.plan stack).run v.schedule choices = some s) :
    MachoViewState.Steps cs m stack v { v with schedule := s } := by
  induction choices generalizing v with
  | nil =>
    cases h
    exact .refl
  | cons choice rest ih =>
    rw [Plan.run, Option.bind_eq_some_iff] at h
    obtain ⟨u, hu, h⟩ := h
    refine .head ⟨.work choice, ?_⟩ (ih (v := { v with schedule := u }) h)
    rw [MachoViewState.step, work_eq_ok.mpr hu]
    rfl

/-- The window comes to a job that traps, if a component of the file lacks what it needs. -/
theorem MachoViewState.exists_trap {machoData : Data} {header : MachoHeader} {is64Bit : Bool}
    (h0 : machoData.startIndex = 0) (hheader : MachoHeader.init machoData is64Bit = .ok header)
    (h : m.Built machoData header) (hregistered : m.Registered m.allComponents.zipIdx m.edges)
    (hschedule : (m.plan stack).Reachable v.schedule) (hlack : ¬ ∀ c ∈ m.allComponents, m.Loads stack c) :
    ∃ w choice trap, MachoViewState.Steps cs m stack v w ∧
      w.step cs m stack (.work choice) = some (.error trap) := by
  have hwf := plan_wf hregistered stack
  have hneeds := plan_needs h0 hheader h hregistered stack
  rw [← forall_loadsAt] at hlack
  obtain ⟨choices, s, hrun, htraps⟩ := hneeds.exists_trap hwf hlack hschedule
  obtain ⟨choice, trap, hwork⟩ := work_of_traps hwf (Plan.reachable_of_run _ hschedule hrun) htraps
  refine ⟨{ v with schedule := s }, choice, trap, MachoViewState.steps_work hrun, ?_⟩
  rw [MachoViewState.step, hwork]
  rfl

end Results

/-! ### A window -/

/-- The state after some events, if all of them can happen. -/
def MachoViewState.run (cs : CapStone) (m : Macho) (stack : Nat) :
    List ViewEvent → MachoViewState → Option MachoViewState
  | [], v => some v
  | e :: es, v =>
    match v.step cs m stack e with
    | some (.ok w) => run cs m stack es w
    | _ => none

theorem MachoViewState.reachable_of_run {cs : CapStone} {m : Macho} {stack : Nat} :
    ∀ {es : List ViewEvent} {v w : MachoViewState}, MachoViewState.Reachable cs m stack v →
      MachoViewState.run cs m stack es v = some w → MachoViewState.Reachable cs m stack w
  | [], v, w, hv, h => by
    cases h
    exact hv
  | e :: es, v, w, hv, h => by
    rw [MachoViewState.run] at h
    split at h
    · rename_i u hu
      exact reachable_of_run (hv.next hu) h
    · cases h

end Mocha
