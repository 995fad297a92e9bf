import Mocha.Lib.ScheduleProgress
import Mocha.Lib.ScheduleResult
import Mocha.Macho.Macho

/-!
# Initializing the components (`MachoComponent.startAsyncInitialization`)

`Macho.plan` is the scheduler of `Lib.Schedule` for the components of a file: the edges are the ones
the `didSet` observers registered, `prepare` is `runInitializing`, `translate` is `runTranslating`
and `fix` is `fixTranslationDataRange`. `Macho.init` runs on the main thread, so the messages of all
components are queued before the first one is handled.

* `Macho.Registered`: which edges `setMacho` leaves. They never form a circle, because a component
  registers only with kinds of a lower `ComponentKind.rank` (`plan_wf`).
* **`startAsyncInitialization_ordered`**: in every order of steps a component is initialized once,
  after its parents, is done only when its ranges are fixed, and all are done when nothing is left
  to do.
-/

namespace Mocha

open Lib

/-- What a component reads through `macho` while the components are in the given states. -/
def Macho.view (m : Macho) (states : Nat → ComponentState) : MachoView where
  stringTable := m.stringTableID.map fun i => (states i).cStrings
  symbolTable := m.symbolTableID.map fun i => (states i).symbolTable
  indirectSymbolTable := m.indirectSymbolTableID.map fun i => (states i).indirectSymbols
  cStringSections := m.cStringSections.map fun p =>
    ⟨p.2, (m.allComponents[p.1]?.map MachoComponent.dataSize).getD 0, (states p.1).cStrings⟩
  sectionHeaders := m.sectionHeaders
  textConst := m.textConstComponent.map MachoComponent.data

/-- The work `startAsyncInitialization()` does for the components of a file. A job that traps does
not return. -/
def Macho.plan (m : Macho) (stack : Nat) : Plan Nat ComponentState (List TranslationGroup) where
  components := List.range m.allComponents.length
  edges := m.edges
  fresh := ComponentState.fresh
  prepare states i := m.allComponents[i]?.bind fun c =>
    (c.runInitializing stack (m.view states)).toOption
  translate states i := m.allComponents[i]?.bind fun c =>
    (c.runTranslating (m.view states) (states i)).toOption
  fix i := fixTranslationDataRange ((m.allComponents[i]?.map MachoComponent.offsetInMacho).getD 0)

section Work

variable {m : Macho} {stack i : Nat} {c : MachoComponent} {states : Nat → ComponentState}

@[simp] theorem stringTable_view :
    (m.view states).stringTable = m.stringTableID.map fun i => (states i).cStrings := by
  rw [Macho.view]

@[simp] theorem symbolTable_view :
    (m.view states).symbolTable = m.symbolTableID.map fun i => (states i).symbolTable := by
  rw [Macho.view]

@[simp] theorem indirectSymbolTable_view : (m.view states).indirectSymbolTable =
    m.indirectSymbolTableID.map fun i => (states i).indirectSymbols := by
  rw [Macho.view]

@[simp] theorem plan_edges : (m.plan stack).edges = m.edges := by
  rw [Macho.plan]

@[simp] theorem mem_plan_components :
    i ∈ (m.plan stack).components ↔ i < m.allComponents.length := by
  rw [Macho.plan, List.mem_range]

theorem plan_prepare_eq_some (hc : m.allComponents[i]? = some c) {v : ComponentState} :
    (m.plan stack).prepare states i = some v ↔ c.runInitializing stack (m.view states) = .ok v := by
  simp only [Macho.plan, hc, Option.bind_some, toOption_eq_some]

theorem plan_translate_eq_some (hc : m.allComponents[i]? = some c) {gs : List TranslationGroup} :
    (m.plan stack).translate states i = some gs ↔
      c.runTranslating (m.view states) (states i) = .ok gs := by
  simp only [Macho.plan, hc, Option.bind_some, toOption_eq_some]

end Work

/-! ## The registered dependencies -/

theorem addChildComponent_eq_ok {child parent : Nat} {edges es : List (Nat × Nat)} :
    Macho.addChildComponent child edges parent = .ok es ↔
      (parent, child) ∉ edges ∧ es = edges ++ [(parent, child)] := by
  unfold Macho.addChildComponent
  rw [guardElse_bind, pure_eq_ok, Except.ok.injEq, eq_comm (b := es), Bool.not_eq_true',
    ← Bool.not_eq_true, List.contains_iff_mem]

theorem addChildren_eq_ok {child : Nat} {parents : List Nat} {edges es : List (Nat × Nat)}
    (h : parents.foldlM (Macho.addChildComponent child) edges = .ok es) :
    es = edges ++ parents.map (fun p => (p, child)) ∧ (edges.Nodup → es.Nodup) := by
  induction parents generalizing edges with
  | nil =>
    cases h
    exact ⟨by simp, id⟩
  | cons p ps ih =>
    rw [List.foldlM_cons, bind_eq_ok] at h
    obtain ⟨next, hnext, h⟩ := h
    obtain ⟨hnew, rfl⟩ := addChildComponent_eq_ok.mp hnext
    obtain ⟨rfl, hnodup⟩ := ih h
    refine ⟨by simp, ?_⟩
    intro hedges
    refine hnodup (List.nodup_append.mpr ⟨hedges, List.nodup_singleton _, ?_⟩)
    rintro a ha b hb rfl
    rw [List.mem_singleton] at hb
    exact hnew (hb ▸ ha)

/-- What the observers of some of the components have registered. -/
structure Macho.Registered (m : Macho) (components : List (MachoComponent × Nat))
    (edges : List (Nat × Nat)) : Prop where
  nodup : edges.Nodup
  returns : ∀ x c, (x, c) ∈ components → ∃ parents, m.registersWith x.kind = .ok parents
  mem_iff : ∀ p c, (p, c) ∈ edges ↔
    ∃ x parents, (x, c) ∈ components ∧ m.registersWith x.kind = .ok parents ∧ p ∈ parents

namespace Macho.Registered

variable {m : Macho} {components rest : List (MachoComponent × Nat)} {edges es : List (Nat × Nat)}

theorem didSet {p : MachoComponent × Nat} (h : m.Registered components edges)
    (hset : m.didSetMacho edges p = .ok es) : m.Registered (components ++ [p]) es := by
  obtain ⟨x, i⟩ := p
  unfold Macho.didSetMacho at hset
  rw [bind_eq_ok] at hset
  obtain ⟨parents, hparents, hset⟩ := hset
  obtain ⟨rfl, hnodup⟩ := addChildren_eq_ok hset
  refine ⟨hnodup h.nodup, ?_, ?_⟩
  · intro y c hy
    rw [List.mem_append, List.mem_singleton] at hy
    rcases hy with hy | hy
    · exact h.returns y c hy
    · cases hy
      exact ⟨parents, hparents⟩
  · intro q c
    rw [List.mem_append, h.mem_iff, List.mem_map]
    constructor
    · rintro (⟨y, ps, hy, hps, hq⟩ | ⟨r, hr, he⟩)
      · exact ⟨y, ps, List.mem_append_left _ hy, hps, hq⟩
      · cases he
        exact ⟨x, parents, by simp, hparents, hr⟩
    · rintro ⟨y, ps, hy, hps, hq⟩
      rw [List.mem_append, List.mem_singleton] at hy
      rcases hy with hy | hy
      · exact .inl ⟨y, ps, hy, hps, hq⟩
      · cases hy
        rw [hparents, Except.ok.injEq] at hps
        exact .inr ⟨q, hps ▸ hq, rfl⟩

theorem didSetAll (h : m.Registered components edges)
    (hset : rest.foldlM m.didSetMacho edges = .ok es) : m.Registered (components ++ rest) es := by
  induction rest generalizing components edges with
  | nil =>
    cases hset
    rwa [List.append_nil]
  | cons p rest ih =>
    rw [List.foldlM_cons, bind_eq_ok] at hset
    obtain ⟨next, hnext, hset⟩ := hset
    rw [List.append_cons]
    exact ih (h.didSet hnext) hset

end Macho.Registered

/-- **What `Macho.init` leaves registered.** -/
theorem init_registered {machoData : Data} {name : String} {header : MachoHeader} {m : Macho}
    (h : Macho.init machoData name header = .ok m) :
    m.Registered m.allComponents.zipIdx m.edges := by
  unfold Macho.init at h
  simp only [bind_eq_ok] at h
  obtain ⟨b, _, edges, hset, h⟩ := h
  cases h
  have hnone : b.Registered [] [] := ⟨List.nodup_nil, by simp, by simp⟩
  obtain ⟨hnodup, hreturns, hmem⟩ := hnone.didSetAll hset
  exact ⟨hnodup, hreturns, hmem⟩

section Ids

variable {m : Macho} {i : Nat}

theorem stringTableID_kind (h : m.stringTableID = some i) :
    ∃ c, m.allComponents[i]? = some c ∧ c.kind = .stringTable := by
  obtain ⟨hlt, hp, _⟩ := List.findIdx?_eq_some_iff_getElem.mp h
  exact ⟨_, List.getElem?_eq_getElem hlt, of_decide_eq_true hp⟩

theorem symbolTableID_kind (h : m.symbolTableID = some i) :
    ∃ c b, m.allComponents[i]? = some c ∧ c.kind = .symbolTable b := by
  obtain ⟨hlt, hp, _⟩ := List.findIdx?_eq_some_iff_getElem.mp h
  split at hp
  · rename_i b hb
    exact ⟨_, b, List.getElem?_eq_getElem hlt, hb⟩
  · cases hp

theorem indirectSymbolTableID_kind (h : m.indirectSymbolTableID = some i) :
    ∃ c b, m.allComponents[i]? = some c ∧ c.kind = .indirectSymbolTable b := by
  obtain ⟨hlt, hp, _⟩ := List.findIdx?_eq_some_iff_getElem.mp h
  split at hp
  · rename_i b hb
    exact ⟨_, b, List.getElem?_eq_getElem hlt, hb⟩
  · cases hp

theorem cStringSections_kind {a : UInt64} (h : (i, a) ∈ m.cStringSections) :
    ∃ c, m.allComponents[i]? = some c ∧ c.kind = .cStringSection a := by
  unfold Macho.cStringSections at h
  rw [List.mem_filterMap] at h
  obtain ⟨⟨c, j⟩, hmem, h⟩ := h
  split at h
  · rename_i b hb
    cases h
    exact ⟨c, List.mk_mem_zipIdx_iff_getElem?.mp hmem, hb⟩
  · cases h

end Ids

theorem registersOne_eq_ok {o : Option Nat} {parents : List Nat} :
    (do return [← guardLet o] : Run (List Nat)) = .ok parents ↔ ∃ p, o = some p ∧ parents = [p] := by
  rw [guardLet_bind]
  simp only [pure_eq_ok, Except.ok.injEq, eq_comm]

/-- A component registers only with kinds of a lower rank. -/
def ComponentKind.rank : ComponentKind → Nat
  | .symbolTable _ | .functionStarts _ _ | .literalPointer _ => 1
  | .indirectSymbolTable _ => 2
  | .symbolPointer _ _ _ => 3
  | _ => 0

theorem registersWith_rank {m : Macho} {kind : ComponentKind} {parents : List Nat} {p : Nat}
    (h : m.registersWith kind = .ok parents) (hp : p ∈ parents) :
    ∃ c, m.allComponents[p]? = some c ∧ c.kind.rank < kind.rank := by
  have hstring : (∃ t, m.stringTableID = some t ∧ parents = [t]) →
      ∃ c, m.allComponents[p]? = some c ∧ c.kind.rank < 1 := by
    rintro ⟨t, ht, rfl⟩
    obtain ⟨c, hc, hkind⟩ := stringTableID_kind ht
    rw [List.mem_singleton.mp hp]
    exact ⟨c, hc, by rw [hkind]; exact Nat.lt_succ_self _⟩
  cases kind with
  | symbolTable => exact hstring (registersOne_eq_ok.mp h)
  | functionStarts => exact hstring (registersOne_eq_ok.mp h)
  | indirectSymbolTable =>
    obtain ⟨i, hi, rfl⟩ := registersOne_eq_ok.mp h
    obtain ⟨c, b, hc, hkind⟩ := symbolTableID_kind hi
    rw [List.mem_singleton.mp hp]
    exact ⟨c, hc, by rw [hkind]; exact Nat.lt_succ_self _⟩
  | symbolPointer =>
    obtain ⟨i, hi, rfl⟩ := registersOne_eq_ok.mp h
    obtain ⟨c, b, hc, hkind⟩ := indirectSymbolTableID_kind hi
    rw [List.mem_singleton.mp hp]
    exact ⟨c, hc, by rw [hkind]; exact Nat.lt_succ_self _⟩
  | literalPointer =>
    cases h
    obtain ⟨⟨i, a⟩, hmem, rfl⟩ := List.mem_map.mp hp
    obtain ⟨c, hc, hkind⟩ := cStringSections_kind hmem
    exact ⟨c, hc, by rw [hkind]; exact Nat.lt_succ_self _⟩
  | _ =>
    cases h
    exact absurd hp List.not_mem_nil

/-- The rank of the component at a position. -/
def Macho.rankAt (m : Macho) (i : Nat) : Nat :=
  (m.allComponents[i]?.map fun c => c.kind.rank).getD 0

/-- **The plan is well formed.** -/
theorem plan_wf {m : Macho} (h : m.Registered m.allComponents.zipIdx m.edges) (stack : Nat) :
    (m.plan stack).Wf := by
  have hedge : ∀ p c, (p, c) ∈ m.edges → ∃ x y, m.allComponents[p]? = some y ∧
      m.allComponents[c]? = some x ∧ y.kind.rank < x.kind.rank := by
    intro p c hpc
    obtain ⟨x, parents, hx, hparents, hp⟩ := (h.mem_iff p c).mp hpc
    obtain ⟨y, hy, hrank⟩ := registersWith_rank hparents hp
    exact ⟨x, y, hy, List.mk_mem_zipIdx_iff_getElem?.mp hx, hrank⟩
  refine ⟨List.nodup_range, h.nodup, ?_, m.rankAt, ?_⟩
  · intro p c hpc
    obtain ⟨x, y, hy, hx, _⟩ := hedge p c hpc
    rw [mem_plan_components, mem_plan_components]
    exact ⟨(List.getElem?_eq_some_iff.mp hy).1, (List.getElem?_eq_some_iff.mp hx).1⟩
  · intro p c hpc
    obtain ⟨x, y, hy, hx, hrank⟩ := hedge p c hpc
    rw [Macho.rankAt, Macho.rankAt, hx, hy]
    exact hrank

/-! ## What holds in every order of steps -/

/-- **Once, in order, and never stuck.** In every state that some order of steps leads to: no
component was begun twice; a component that was begun has only initialized parents; a component that is
done has its groups, with their ranges fixed; when neither a message nor a job is left, every
component was begun once and is done; and otherwise someone can move, unless a job has trapped. -/
theorem startAsyncInitialization_ordered {machoData : Data} {name : String} {header : MachoHeader}
    {m : Macho} (h : Macho.init machoData name header = .ok m) {stack : Nat}
    {s : State Nat ComponentState (List TranslationGroup)} (hs : (m.plan stack).Reachable s) :
    (∀ c, (s.cells c).starts ≤ 1) ∧
    (∀ p c, (p, c) ∈ m.edges → 0 < (s.cells c).starts → (s.cells p).prepared = true) ∧
    (∀ c, (s.cells c).isDone = true →
      (s.cells c).isFixed = true ∧ ∃ groups, (s.cells c).groups = some ((m.plan stack).fix c groups)) ∧
    (s.Quiescent → ∀ c < m.allComponents.length,
      (s.cells c).isDone = true ∧ (s.cells c).starts = 1) ∧
    (¬ s.Quiescent → (∃ t, (m.plan stack).Step s t) ∨
      ∃ c, ((c, .preparing) ∈ s.jobs ∧ (m.plan stack).prepare s.states c = none) ∨
        ((c, .translating) ∈ s.jobs ∧ (m.plan stack).translate s.states c = none)) := by
  have hwf := plan_wf (init_registered h) stack
  refine ⟨hs.starts_le_one hwf, ?_, fun c => hs.done_fixed hwf, ?_, Plan.can_step⟩
  · intro p c hedge hstart
    exact hs.parents_prepared hwf hstart hedge
  · intro hquiescent c hc
    have hdone := hs.quiescent_done hwf hquiescent (mem_plan_components.mpr hc)
    exact ⟨hdone, hs.done_starts hwf hdone⟩

/-- The file `functionFile` and its state after the chosen steps. -/
def functionFileRun (choices : List Plan.Choice) :
    Option (Macho × State Nat ComponentState (List TranslationGroup)) := do
  let m ← (Macho.init functionFile "f" functionFileHeader).toOption
  let s ← (m.plan 0).run (m.plan 0).start choices
  return (m, s)

theorem functionFileRun_eq_some {choices : List Plan.Choice} {m : Macho}
    {s : State Nat ComponentState (List TranslationGroup)}
    (h : functionFileRun choices = some (m, s)) :
    Macho.init functionFile "f" functionFileHeader = .ok m ∧ (m.plan 0).Reachable s := by
  unfold functionFileRun at h
  simp only [Option.bind_eq_bind, Option.bind_eq_some_iff] at h
  obtain ⟨n, hn, t, ht, h⟩ := h
  cases h
  exact ⟨toOption_eq_some.mp hn, Plan.reachable_of_run _ .refl ht⟩

/-- All steps of `functionFile`: the string table first, then the function starts, then the symbol
table. -/
def functionStartsFirst : List Plan.Choice :=
  List.replicate 8 Plan.Choice.main ++ List.replicate 38 (Plan.Choice.job 0) ++
    List.replicate 8 Plan.Choice.main ++ List.replicate 12 (Plan.Choice.job 0) ++
    List.replicate 2 Plan.Choice.main

theorem startAsyncInitialization_ordered_functionFile :
    ∃ m s, Macho.init functionFile "f" functionFileHeader = .ok m ∧ (m.plan 0).Reachable s ∧
      s.Quiescent ∧ ∀ c < m.allComponents.length,
        (s.cells c).isDone = true ∧ (s.cells c).starts = 1 := by
  have hrun : (functionFileRun functionStartsFirst).map (fun r => (r.2.queue, r.2.jobs)) =
      some ([], []) := by
    decide +kernel
  obtain ⟨⟨m, s⟩, hms, hempty⟩ := Option.map_eq_some_iff.mp hrun
  obtain ⟨hm, hs⟩ := functionFileRun_eq_some hms
  rw [Prod.mk.injEq] at hempty
  obtain ⟨_, _, _, hdone, _⟩ := startAsyncInitialization_ordered hm hs
  exact ⟨m, s, hm, hs, hempty, hdone hempty⟩

end Mocha
