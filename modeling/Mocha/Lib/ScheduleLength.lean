import Mathlib.Algebra.BigOperators.Ring.List
import Mathlib.Algebra.GroupWithZero.Nat
import Mathlib.Algebra.Ring.Nat
import Mocha.Lib.ScheduleProgress
import Mocha.Lib.ScheduleResult

/-!
# How long a schedule runs

`Plan.left` counts the steps that are left: one for every message, and for every component what its
job still has to do. A job makes six steps and one for each child, every message to a child is one
more step of the main thread, and so is the `finish` message at the end.

**`Plan.Reachable.left_step`**: every step of anyone takes exactly one off. So the order of the steps does
not matter for their number: a plan with `n` components and `e` edges is finished after `8 * n + 2 * e`
steps, never earlier and never later (`Plan.length_run`, `Plan.Reachable.left_eq_zero_iff`).
-/

namespace Mocha.Lib

section Sums

variable {ι κ : Type} [DecidableEq ι]

omit [DecidableEq ι] in
theorem sum_map_congr {l : List ι} {f g : ι → Nat} (h : ∀ d ∈ l, f d = g d) :
    (l.map f).sum = (l.map g).sum :=
  congrArg List.sum (List.map_congr_left h)

omit [DecidableEq ι] in
/-- Two sums that differ at one place. -/
theorem sum_map_differ {l : List ι} (hl : l.Nodup) {c : ι} (hc : c ∈ l) {f g : ι → Nat}
    (h : ∀ d ∈ l, d ≠ c → f d = g d) : (l.map f).sum + g c = (l.map g).sum + f c := by
  induction l with
  | nil => exact absurd hc List.not_mem_nil
  | cons a l ih =>
    obtain ⟨ha, hnodup⟩ := List.nodup_cons.mp hl
    rw [List.map_cons, List.map_cons, List.sum_cons, List.sum_cons]
    rcases List.mem_cons.mp hc with rfl | hmem
    · have hrest : (l.map f).sum = (l.map g).sum := by
        refine sum_map_congr fun d hd => h d (List.mem_cons_of_mem _ hd) ?_
        rintro rfl
        exact ha hd
      omega
    · have hne : a ≠ c := by
        rintro rfl
        exact ha hmem
      have hhead := h a List.mem_cons_self hne
      have hrest := ih hnodup hmem fun d hd => h d (List.mem_cons_of_mem _ hd)
      omega

/-- A list is counted by the values of a key, when these are all in a list without repetition. -/
theorem sum_count_key {l : List ι} (hl : l.Nodup) (key : κ → ι) : ∀ (xs : List κ),
    (∀ x ∈ xs, key x ∈ l) → (l.map fun c => (xs.filter fun x => key x = c).length).sum = xs.length
  | [], _ => by simp
  | x :: xs, h => by
    have hrest := sum_count_key hl key xs fun y hy => h y (List.mem_cons_of_mem x hy)
    have hdiffer := sum_map_differ hl (h x List.mem_cons_self)
      (f := fun c => ((x :: xs).filter fun y => key y = c).length)
      (g := fun c => (xs.filter fun y => key y = c).length) (by
        intro d _ hd
        rw [List.filter_cons_of_neg (by simpa using hd.symm)])
    simp only [List.filter_cons, decide_true, if_true, List.length_cons] at hdiffer ⊢
    omega

end Sums

variable {ι σ τ : Type} [DecidableEq ι]

/-! ## The steps that are left -/

/-- The component has not been dispatched. -/
def State.Waits (s : State ι σ τ) (c : ι) : Prop := (s.cells c).starts = 0 ∧ ∀ j ∈ s.jobs, j.1 ≠ c

instance (s : State ι σ τ) (c : ι) : Decidable (s.Waits c) := inferInstanceAs (Decidable (_ ∧ _))

namespace Plan

variable (P : Plan ι σ τ)

/-- The steps a job makes and causes from a stage on. -/
def stageCost (c : ι) : Stage ι → Nat
  | .dispatched => 7 + 2 * (P.children c).length
  | .preparing => 6 + 2 * (P.children c).length
  | .notifying ds => 5 + 2 * ds.length
  | .translating => 4
  | .fixing => 3
  | .finishing => 2

/-- The steps a component that is not dispatched will make and cause. -/
def waitCost (s : State ι σ τ) (c : ι) : Nat := if s.Waits c then P.stageCost c .dispatched else 0

/-- The steps that are left. -/
def left (s : State ι σ τ) : Nat :=
  s.queue.length + (s.jobs.map fun j => P.stageCost j.1 j.2).sum + (P.components.map (P.waitCost s)).sum

variable {P}

/-- At the beginning. -/
theorem left_start (hwf : P.Wf) : P.left P.start = 8 * P.components.length + 2 * P.edges.length := by
  have hcost : ∀ c ∈ P.components,
      P.waitCost P.start c = 7 + 2 * (P.edges.filter fun e => e.1 = c).length := by
    intro c _
    have hwaits : P.start.Waits c := ⟨rfl, fun j hj => absurd hj List.not_mem_nil⟩
    rw [waitCost, if_pos hwaits, stageCost, children, List.length_map]
  have hedges := sum_count_key hwf.components_nodup Prod.fst P.edges
    fun e he => (hwf.edge_mem e.1 e.2 he).1
  unfold left
  rw [sum_map_congr hcost, List.sum_map_add, List.sum_map_mul_left, hedges]
  simp only [start, List.length_map, List.map_nil, List.sum_nil, List.map_const',
    List.sum_replicate_nat]
  omega

/-- What a job's step costs: one step, and what it leaves to do is in the queue or in the pool. -/
theorem jobStep_cost {s : State ι σ τ} {c : ι} {stage : Stage ι} {r : State ι σ τ × Option (Stage ι)}
    (hr : P.jobStep s c stage = some r)
    (hchildren : stage = .preparing → (s.cells c).children = P.children c) :
    s.queue.length + P.stageCost c stage =
      r.1.queue.length + (r.2.toList.map (P.stageCost c)).sum + 1 := by
  cases stage with
  | dispatched =>
    cases hr
    simp [stageCost]
    omega
  | preparing =>
    rw [jobStep, Option.map_eq_some_iff] at hr
    obtain ⟨v, -, rfl⟩ := hr
    simp [stageCost, hchildren rfl]
    omega
  | notifying ds =>
    cases ds with
    | nil =>
      cases hr
      simp [stageCost]
    | cons d ds =>
      cases hr
      simp [stageCost, State.send]
      omega
  | translating =>
    rw [jobStep, Option.map_eq_some_iff] at hr
    obtain ⟨v, -, rfl⟩ := hr
    simp [stageCost]
  | fixing =>
    cases hr
    simp [stageCost]
  | finishing =>
    cases hr
    simp [stageCost, State.send]

/-- A job that leaves the pool was begun. -/
theorem jobStep_last {s : State ι σ τ} {c : ι} {stage : Stage ι} {r : State ι σ τ × Option (Stage ι)}
    (hr : P.jobStep s c stage = some r) (hlast : r.2 = none) : stage = .finishing ∧ r.1.cells = s.cells := by
  cases stage with
  | finishing =>
    cases hr
    exact ⟨rfl, rfl⟩
  | notifying ds => cases ds <;> cases hr <;> cases hlast
  | dispatched =>
    cases hr
    cases hlast
  | fixing =>
    cases hr
    cases hlast
  | _ =>
    rw [jobStep, Option.map_eq_some_iff] at hr
    obtain ⟨v, -, rfl⟩ := hr
    cases hlast

/-- A job's step, seen from the components that wait. -/
theorem waits_job {s : State ι σ τ} {phase : ι → Phase ι} {first : List ι} {sent : List (Message ι)}
    (h : ScheduleInv P s phase first sent) {c : ι} {stage : Stage ι} {js ks : List (ι × Stage ι)}
    {r : State ι σ τ × Option (Stage ι)} (hjobs : s.jobs = js ++ (c, stage) :: ks)
    (hr : P.jobStep s c stage = some r) (d : ι) :
    State.Waits { r.1 with jobs := js ++ ((r.2.toList.map fun next => (c, next)) ++ ks) } d ↔
      s.Waits d := by
  have hmem : (c, stage) ∈ s.jobs := by
    rw [hjobs]
    simp
  unfold State.Waits
  by_cases hd : d = c
  · subst hd
    refine iff_of_false ?_ fun hwaits => hwaits.2 _ hmem rfl
    rintro ⟨hstarts, hno⟩
    cases hnext : r.2 with
    | some next => exact hno (d, next) (by simp [hnext]) rfl
    | none =>
      obtain ⟨rfl, hcells⟩ := jobStep_last hr hnext
      have hcell := h.cell d
      rw [(h.pool.mem_iff d _).mp hmem] at hcell
      rw [hcells, hcell.starts] at hstarts
      cases hstarts
  · rw [jobStep_frame hr hd, hjobs]
    refine and_congr_right fun _ => ?_
    simp only [List.mem_append, List.mem_map, List.mem_cons]
    constructor
    · rintro hno j (hj | rfl | hj)
      · exact hno j (.inl hj)
      · exact fun he => hd he.symm
      · exact hno j (.inr (.inr hj))
    · rintro hno j (hj | ⟨next, -, rfl⟩ | hj)
      · exact hno j (.inl hj)
      · exact fun he => hd he.symm
      · exact hno j (.inr (.inr hj))

/-- The main thread handles a message without dispatching a job. -/
theorem left_heard {s : State ι σ τ} {c : ι} {m : Message ι} {queue : List (Message ι)}
    {f : Cell ι σ τ → Cell ι σ τ} (hqueue : s.queue = m :: queue)
    (hf : (f (s.cells c)).starts = (s.cells c).starts) :
    P.left s = P.left (State.modify { s with queue } c f) + 1 := by
  have hcost : ∀ d ∈ P.components,
      P.waitCost (State.modify { s with queue } c f) d = P.waitCost s d := by
    intro d _
    have hstarts : ((State.modify { s with queue } c f).cells d).starts = (s.cells d).starts := by
      by_cases hd : d = c
      · rw [hd, State.modify_self, hf]
      · rw [State.modify_of_ne _ hd]
    have hwaits : (State.modify { s with queue } c f).Waits d ↔ s.Waits d := by
      unfold State.Waits
      rw [hstarts]
      rfl
    unfold waitCost
    simp only [hwaits]
  unfold left
  rw [sum_map_congr hcost, hqueue]
  simp only [List.length_cons, State.modify_queue, State.modify_jobs]
  omega

omit [DecidableEq ι] in
theorem received_starts (ready : Option ι) [DecidableEq ι] (cell : Cell ι σ τ) :
    (received ready cell).starts = cell.starts := by
  cases ready <;> rfl

/-- A component that waits is dispatched. -/
theorem left_dispatched {s : State ι σ τ} (hnodup : P.components.Nodup) {c : ι} (hc : c ∈ P.components)
    (hwaits : s.Waits c) : P.left { s with jobs := s.jobs ++ [(c, .dispatched)] } = P.left s := by
  have hself : ¬ State.Waits { s with jobs := s.jobs ++ [(c, .dispatched)] } c := by
    intro hw
    exact hw.2 (c, .dispatched) (by simp) rfl
  have hdiffer := sum_map_differ hnodup hc
    (f := P.waitCost { s with jobs := s.jobs ++ [(c, .dispatched)] }) (g := P.waitCost s) (by
      intro d _ hd
      have hsame : State.Waits { s with jobs := s.jobs ++ [(c, .dispatched)] } d ↔ s.Waits d := by
        refine and_congr_right fun _ => ?_
        simp [hd.symm, or_imp, forall_and]
      unfold waitCost
      simp only [hsame])
  rw [waitCost, if_pos hwaits, waitCost, if_neg hself] at hdiffer
  unfold left
  rw [List.map_append, List.sum_append]
  simp only [List.map_cons, List.map_nil, List.sum_cons, List.sum_nil]
  omega

end Plan

section Runs

variable {P : Plan ι σ τ} {s t : State ι σ τ}

/-- A component in the phase `waiting` waits. -/
theorem ScheduleInv.waits {phase : ι → Phase ι} {first : List ι} {sent : List (Message ι)}
    (h : ScheduleInv P s phase first sent) {c : ι} (hc : phase c = .waiting) : s.Waits c := by
  have hcell := h.cell c
  rw [hc] at hcell
  refine ⟨hcell.starts, ?_⟩
  rintro ⟨d, stage⟩ hj rfl
  rw [h.pool.mem_iff, hc] at hj
  cases hj

/-- The main thread dispatches only components that wait. -/
theorem ScheduleInv.waits_of_message {phase : ι → Phase ι} {first : List ι} {sent : List (Message ι)}
    (hwf : P.Wf) (h : ScheduleInv P s phase first sent) {c : ι} {ready : Option ι}
    {queue : List (Message ι)} (hqueue : s.queue = .start c ready :: queue) :
    c ∈ P.components ∧ s.Waits c := by
  have hq := h.queue
  rw [hqueue] at hq
  cases first with
  | nil =>
    have hmem : .start c ready ∈ sent := by
      have hsent : Message.start c ready :: queue = sent := hq
      rw [← hsent]
      exact List.mem_cons_self
    cases ready with
    | none => exact absurd hmem (h.messages.not_first c)
    | some r =>
      obtain ⟨hedge, -⟩ := h.messages.ready r c hmem
      have hc := (hwf.edge_mem r c hedge).2
      have hparent : r ∈ (s.cells c).parents := (h.parents_iff r c).mpr ⟨hedge, .inr hmem⟩
      exact ⟨hc, h.waits ((h.waiting_iff c hc).mpr (.inr (List.ne_nil_of_mem hparent)))⟩
  | cons d first =>
    rw [List.map_cons, List.cons_append, List.cons.injEq] at hq
    obtain ⟨hhead, -⟩ := hq
    cases hhead
    have hc : c ∈ P.components := by
      by_contra hno
      exact (h.outside c hno).2 List.mem_cons_self
    exact ⟨hc, h.waits ((h.waiting_iff c hc).mpr (.inl List.mem_cons_self))⟩

/-- **Every step takes one off.** -/
theorem Plan.Reachable.left_step (hwf : P.Wf) (hs : P.Reachable s) (hstep : P.Step s t) :
    P.left s = P.left t + 1 := by
  obtain ⟨phase, first, sent, h⟩ := hs.inv hwf
  obtain ⟨choice, hstep⟩ := hstep
  cases choice with
  | main =>
    rcases Plan.mainStep_cases hstep with ⟨c, queue, hqueue, rfl⟩ | ⟨c, ready, queue, hqueue, ht⟩
    · exact Plan.left_heard hqueue rfl
    · have hheard := Plan.left_heard (P := P) (c := c) hqueue
        (Plan.received_starts ready (s.cells c))
      rcases ht with ⟨-, rfl⟩ | ⟨-, rfl⟩
      · obtain ⟨hc, hstarts, hno⟩ := h.waits_of_message hwf hqueue
        have hwaits : (State.modify { s with queue } c (Plan.received ready)).Waits c := by
          refine ⟨?_, hno⟩
          rw [State.modify_self, Plan.received_starts, hstarts]
        rw [hheard, ← Plan.left_dispatched hwf.components_nodup hc hwaits]
        rfl
      · exact hheard
  | job index =>
    obtain ⟨c, stage, js, ks, r, hjobs, hr, rfl⟩ := Plan.job_cases hstep
    have hc : phase c = .running stage := (h.pool.mem_iff c stage).mp (by rw [hjobs]; simp)
    have hcost := Plan.jobStep_cost hr (by
      rintro rfl
      have hcell := h.cell c
      rw [hc] at hcell
      exact hcell.children rfl)
    have hwait : ∀ d ∈ P.components, P.waitCost s d =
        P.waitCost { r.1 with jobs := js ++ ((r.2.toList.map fun next => (c, next)) ++ ks) } d := by
      intro d _
      unfold Plan.waitCost
      simp only [Plan.waits_job h hjobs hr]
    unfold Plan.left
    rw [sum_map_congr hwait, hjobs]
    have hnext : ((fun j : ι × Stage ι => P.stageCost j.1 j.2) ∘ fun next => (c, next)) =
        P.stageCost c := rfl
    simp only [List.map_append, List.map_cons, List.map_map, List.sum_append, List.sum_cons, hnext]
    omega

/-- The steps of a run. -/
theorem Plan.length_run (hwf : P.Wf) (hs : P.Reachable s) {choices : List Plan.Choice}
    (h : P.run s choices = some t) : P.left s = P.left t + choices.length := by
  induction choices generalizing s with
  | nil =>
    cases h
    rfl
  | cons choice rest ih =>
    rw [Plan.run, Option.bind_eq_some_iff] at h
    obtain ⟨u, hu, h⟩ := h
    rw [hs.left_step hwf ⟨choice, hu⟩, ih (hs.tail ⟨choice, hu⟩) h, List.length_cons]
    omega

omit [DecidableEq ι] in
theorem Plan.stageCost_pos [DecidableEq ι] (c : ι) (stage : Stage ι) : 0 < P.stageCost c stage := by
  cases stage <;> simp only [Plan.stageCost] <;> omega

/-- **Nothing is left to do** exactly when no step is left. -/
theorem Plan.Reachable.left_eq_zero_iff (hwf : P.Wf) (hs : P.Reachable s) :
    P.left s = 0 ↔ s.Quiescent := by
  constructor
  · intro hzero
    unfold Plan.left at hzero
    refine ⟨List.length_eq_zero_iff.mp (by omega), ?_⟩
    cases hjobs : s.jobs with
    | nil => rfl
    | cons job jobs =>
      rw [hjobs, List.map_cons, List.sum_cons] at hzero
      have hpos := Plan.stageCost_pos (P := P) job.1 job.2
      omega
  · intro hq
    have hcost : ∀ c ∈ P.components, P.waitCost s c = 0 := by
      intro c hc
      unfold Plan.waitCost
      rw [if_neg]
      rintro ⟨hstarts, -⟩
      rw [hs.done_starts hwf (hs.quiescent_done hwf hq hc)] at hstarts
      cases hstarts
    obtain ⟨hqueue, hjobs⟩ := hq
    unfold Plan.left
    rw [sum_map_congr hcost, hqueue, hjobs]
    simp

/-- A job has come to work that does not return. -/
def Plan.Traps (P : Plan ι σ τ) (s : State ι σ τ) : Prop :=
  ∃ c, ((c, .preparing) ∈ s.jobs ∧ P.prepare s.states c = none) ∨
    ((c, .translating) ∈ s.jobs ∧ P.translate s.states c = none)

/-- **Every run can be continued** until nothing is left to do or a job does not return. -/
theorem Plan.Reachable.finishes_or_traps (hwf : P.Wf) (hs : P.Reachable s) :
    ∃ choices t, P.run s choices = some t ∧ (t.Quiescent ∨ P.Traps t) := by
  induction hleft : P.left s generalizing s with
  | zero => exact ⟨[], s, rfl, .inl ((hs.left_eq_zero_iff hwf).mp hleft)⟩
  | succ n ih =>
    have hnot : ¬ s.Quiescent := by
      rw [← hs.left_eq_zero_iff hwf, hleft]
      exact Nat.succ_ne_zero n
    rcases Plan.can_step (P := P) hnot with ⟨u, hu⟩ | htraps
    · have hn := hs.left_step hwf hu
      obtain ⟨choices, t, ht, hend⟩ := ih (hs.tail hu) (by omega)
      obtain ⟨choice, hu⟩ := hu
      refine ⟨choice :: choices, t, ?_, hend⟩
      rw [Plan.run, hu, Option.bind_some, ht]
    · exact ⟨[], s, rfl, .inr htraps⟩

/-- A run can be continued to its end, if no job fails to return. -/
theorem Plan.Reachable.exists_run (hwf : P.Wf) (hreturns : ∀ t, P.Reachable t → ¬ P.Traps t)
    (hs : P.Reachable s) : ∃ choices t, P.run s choices = some t ∧ t.Quiescent := by
  obtain ⟨choices, t, hrun, hend⟩ := hs.finishes_or_traps hwf
  refine ⟨choices, t, hrun, ?_⟩
  rcases hend with hquiescent | htraps
  · exact hquiescent
  · exact absurd htraps (hreturns t (Plan.reachable_of_run _ hs hrun))

end Runs

end Mocha.Lib
