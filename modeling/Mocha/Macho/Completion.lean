import Mocha.Lib.ScheduleLength
import Mocha.Macho.Scheduler

/-!
# How long the initialization takes

`startAsyncInitialization()` leaves the order of the jobs open, but not their number of steps. Each
component is eight of them: its first message, the six pieces of its job and the message that marks it as
done. Each registered dependency is two more: the parent's message and its handling.

**`startAsyncInitialization_length`**: every run of a file has at most `Macho.stepCount` steps, is finished
exactly when it has that many, and can be continued until then, unless a job traps.
-/

namespace Mocha

open Lib

namespace Macho

variable (m : Macho)

/-- The number of components the `didSet` observer of a component registers with. -/
def parentCount : ComponentKind → Nat
  | .symbolTable _ | .functionStarts _ _ | .indirectSymbolTable _ | .symbolPointer _ _ _ => 1
  | .literalPointer _ => m.cStringSections.length
  | _ => 0

/-- The number of steps until all components are done. -/
def stepCount : Nat :=
  8 * m.allComponents.length + 2 * (m.allComponents.map fun c => m.parentCount c.kind).sum

end Macho

variable {m : Macho}

theorem registersWith_length {kind : ComponentKind} {parents : List Nat}
    (h : m.registersWith kind = .ok parents) : parents.length = m.parentCount kind := by
  cases kind with
  | symbolTable | functionStarts | indirectSymbolTable | symbolPointer =>
    obtain ⟨p, -, rfl⟩ := registersOne_eq_ok.mp h
    rfl
  | literalPointer =>
    cases h
    rw [Macho.parentCount, List.length_map]
  | _ =>
    cases h
    rfl

/-- Every observer adds as many dependencies as it registers. -/
theorem didSetAll_length {components : List (MachoComponent × Nat)} {edges es : List (Nat × Nat)}
    (h : components.foldlM m.didSetMacho edges = .ok es) :
    es.length = edges.length + (components.map fun p => m.parentCount p.1.kind).sum := by
  induction components generalizing edges with
  | nil =>
    cases h
    rfl
  | cons p rest ih =>
    rw [List.foldlM_cons, bind_eq_ok] at h
    obtain ⟨next, hnext, h⟩ := h
    unfold Macho.didSetMacho at hnext
    rw [bind_eq_ok] at hnext
    obtain ⟨parents, hparents, hnext⟩ := hnext
    obtain ⟨rfl, -⟩ := addChildren_eq_ok hnext
    rw [ih h, List.length_append, List.length_map, registersWith_length hparents, List.map_cons,
      List.sum_cons]
    omega

theorem init_edges_length {machoData : Data} {name : String} {header : MachoHeader}
    (h : Macho.init machoData name header = .ok m) :
    m.edges.length = (m.allComponents.map fun c => m.parentCount c.kind).sum := by
  unfold Macho.init at h
  simp only [bind_eq_ok] at h
  obtain ⟨b, -, edges, hset, h⟩ := h
  cases h
  have hlength := didSetAll_length hset
  rw [List.length_nil, Nat.zero_add] at hlength
  have hfst : b.allComponents.zipIdx.map Prod.fst = b.allComponents := List.zipIdx_map_fst 0 _
  have hmap : (b.allComponents.map fun c => b.parentCount c.kind) =
      b.allComponents.zipIdx.map fun p => b.parentCount p.1.kind := by
    conv_lhs => rw [← hfst, List.map_map]
    rfl
  rw [← hmap] at hlength
  exact hlength

/-- **The number of steps does not depend on the order.** However the main thread and the jobs take turns, a
run has at most `stepCount` steps; nothing is left to do exactly when it has that many; and unless a job
traps on the way, every run can be continued to one of that length, after which every component is done. -/
theorem startAsyncInitialization_length {machoData : Data} {name : String} {header : MachoHeader}
    (h : Macho.init machoData name header = .ok m) (stack : Nat) {choices : List Plan.Choice}
    {s : State Nat ComponentState (List TranslationGroup)}
    (hrun : (m.plan stack).run (m.plan stack).start choices = some s) :
    choices.length ≤ m.stepCount ∧
    (s.Quiescent ↔ choices.length = m.stepCount) ∧
    ((∀ t, (m.plan stack).Reachable t → ∀ c,
        ((c, .preparing) ∈ t.jobs → (m.plan stack).prepare t.states c ≠ none) ∧
        ((c, .translating) ∈ t.jobs → (m.plan stack).translate t.states c ≠ none)) →
      ∃ more t, (m.plan stack).run s more = some t ∧ t.Quiescent ∧
        choices.length + more.length = m.stepCount ∧
        ∀ c < m.allComponents.length, (t.cells c).isDone = true) := by
  have hwf := plan_wf (init_registered h) stack
  have hs : (m.plan stack).Reachable s := Plan.reachable_of_run _ .refl hrun
  have htotal : (m.plan stack).left (m.plan stack).start = m.stepCount := by
    rw [Plan.left_start hwf, plan_edges, init_edges_length h, Macho.stepCount]
    simp [Macho.plan]
  have hlength := Plan.length_run hwf .refl hrun
  rw [htotal] at hlength
  refine ⟨by omega, ?_, ?_⟩
  · rw [← hs.left_eq_zero_iff hwf]
    omega
  · intro hreturns
    have hnone : ∀ t, (m.plan stack).Reachable t → ¬ (m.plan stack).Traps t := by
      rintro t ht ⟨c, ⟨hjob, htrap⟩ | ⟨hjob, htrap⟩⟩
      · exact (hreturns t ht c).1 hjob htrap
      · exact (hreturns t ht c).2 hjob htrap
    obtain ⟨more, t, hmore, hquiescent⟩ := hs.exists_run hwf hnone
    have ht : (m.plan stack).Reachable t := Plan.reachable_of_run _ hs hmore
    have hmoreLength := Plan.length_run hwf hs hmore
    rw [(ht.left_eq_zero_iff hwf).mpr hquiescent] at hmoreLength
    refine ⟨more, t, hmore, hquiescent, by omega, ?_⟩
    intro c hc
    exact ht.quiescent_done hwf hquiescent (mem_plan_components.mpr hc)

/-- `functionFile` has eight components and two dependencies. -/
theorem startAsyncInitialization_length_functionFile :
    ∃ m s, Macho.init functionFile "f" functionFileHeader = .ok m ∧ m.stepCount = 68 ∧
      (m.plan 0).run (m.plan 0).start functionStartsFirst = some s ∧ s.Quiescent := by
  have hrun : (functionFileRun functionStartsFirst).map (fun r => r.1.stepCount) = some 68 := by
    decide +kernel
  obtain ⟨⟨m, s⟩, hms, hcount⟩ := Option.map_eq_some_iff.mp hrun
  have hinit := (functionFileRun_eq_some hms).1
  unfold functionFileRun at hms
  simp only [Option.bind_eq_bind, Option.bind_eq_some_iff] at hms
  obtain ⟨n, -, t, ht, hms⟩ := hms
  cases hms
  refine ⟨m, s, hinit, hcount, ht, ?_⟩
  exact (startAsyncInitialization_length hinit 0 ht).2.1.mpr (hcount ▸ rfl)

end Mocha
