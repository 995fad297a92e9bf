import Mocha.Lib.ScheduleLength

/-!
# Whether a schedule can be finished

A job that does not return leaves its component, and everything that waits for it, undone. What a
component needs is often known before anything runs: `Plan.Needs P reads need` says that `need c` is what
the two pieces of work on `c` take to return, whenever the components that `c` reads have settled. A
component may also look at others, which it does not wait for; their states are fresh or settled.

**`Plan.Needs.exists_run`**: every run can be finished, if every component has what it needs, and
**`Plan.Needs.exists_trap`**: otherwise every run comes to a job that does not return. So it does not depend
on the order of the steps whether a schedule is finished.
-/

namespace Mocha.Lib

variable {ι σ τ : Type} [DecidableEq ι] {P : Plan ι σ τ} {reads : ι → List ι}

omit [DecidableEq ι] in
/-- The state is the one at the beginning or the settled one. -/
def Plan.FreshOrSettled (P : Plan ι σ τ) (reads : ι → List ι) (c : ι) (v : σ) : Prop :=
  v = P.fresh ∨ Settled P reads c v

/-- A component that is not prepared has the state it had at the beginning. -/
theorem Plan.Reachable.state_fresh {s : State ι σ τ} (hs : P.Reachable s) (c : ι)
    (hprepared : (s.cells c).prepared = false) : s.states c = P.fresh := by
  induction hs with
  | refl => rfl
  | tail _ hstep ih =>
    rcases hstep.cell_cases c with ⟨hstate, hsame, -, -⟩ | ⟨v, -, -, hcell⟩ | ⟨v, -, -, hcell⟩ | ⟨-, hcell⟩
    · exact hstate.trans (ih (hsame ▸ hprepared))
    · rw [hcell] at hprepared
      cases hprepared
    · rw [hcell] at hprepared
      rw [State.states, hcell]
      exact ih hprepared
    · rw [hcell] at hprepared
      rw [State.states, hcell]
      exact ih hprepared

theorem Plan.Reachable.freshOrSettled {s : State ι σ τ} (hwf : P.Wf)
    (hbefore : ∀ c, ∀ r ∈ reads c, P.Before r c) (hs : P.Reachable s) (c : ι) :
    P.FreshOrSettled reads c (s.states c) := by
  cases hprepared : (s.cells c).prepared with
  | false => exact .inl (hs.state_fresh c hprepared)
  | true => exact .inr ((hs.consistent hwf hbefore c).state hprepared)

/-- A job works on one of the components. -/
theorem Plan.Reachable.job_component {s : State ι σ τ} (hwf : P.Wf) (hs : P.Reachable s) {c : ι}
    {stage : Stage ι} (hjob : (c, stage) ∈ s.jobs) : c ∈ P.components := by
  obtain ⟨phase, first, sent, h⟩ := hs.inv hwf
  have hrunning : phase c = .running stage := (h.pool.mem_iff c stage).mp hjob
  by_contra hout
  rw [(h.outside c hout).1] at hrunning
  cases hrunning

/-- What the component of a job reads has settled. -/
theorem Plan.Reachable.job_reads {s : State ι σ τ} (hwf : P.Wf)
    (hbefore : ∀ c, ∀ r ∈ reads c, P.Before r c) (hs : P.Reachable s) {c : ι} {stage : Stage ι}
    (hjob : (c, stage) ∈ s.jobs) :
    c ∈ P.components ∧ ∀ r ∈ reads c, Settled P reads r (s.states r) := by
  refine ⟨hs.job_component hwf hjob, fun r hr => ?_⟩
  obtain ⟨phase, first, sent, h⟩ := hs.inv hwf
  have hrunning : phase c = .running stage := (h.pool.mem_iff c stage).mp hjob
  refine (hs.consistent hwf hbefore r).state (h.started_before hwf (c := c) ?_ (hbefore c r hr))
  rw [hrunning]
  intro hwaiting
  cases hwaiting

/-- The state a job translates has settled. -/
theorem Plan.Reachable.translating_settled {s : State ι σ τ} (hwf : P.Wf)
    (hbefore : ∀ c, ∀ r ∈ reads c, P.Before r c) (hs : P.Reachable s) {c : ι}
    (hjob : (c, .translating) ∈ s.jobs) : Settled P reads c (s.states c) := by
  obtain ⟨phase, first, sent, h⟩ := hs.inv hwf
  refine (hs.consistent hwf hbefore c).state ?_
  rw [(h.cell c).prepared, (h.pool.mem_iff c _).mp hjob]
  rfl

/-- What a component needs for its work to return. -/
structure Plan.Needs (P : Plan ι σ τ) (reads : ι → List ι) (need : ι → Prop) : Prop where
  before : ∀ c, ∀ r ∈ reads c, P.Before r c
  needed : ∀ c ∈ P.components, ∀ t, Translated P reads c t → need c
  prepares : ∀ c ∈ P.components, need c → ∀ st : ι → σ,
    (∀ r ∈ reads c, Settled P reads r (st r)) → P.prepare st c ≠ none
  translates : ∀ c ∈ P.components, need c → ∀ st : ι → σ, Settled P reads c (st c) →
    (∀ r ∈ reads c, Settled P reads r (st r)) → (∀ d, P.FreshOrSettled reads d (st d)) →
    P.translate st c ≠ none

namespace Plan.Needs

variable {need : ι → Prop} {s : State ι σ τ}

/-- No job fails to return, if every component has what it needs. -/
theorem not_traps (hwf : P.Wf) (h : P.Needs reads need) (hneed : ∀ c ∈ P.components, need c)
    (hs : P.Reachable s) : ¬ P.Traps s := by
  rintro ⟨c, ⟨hjob, htrap⟩ | ⟨hjob, htrap⟩⟩
  · obtain ⟨hc, hreads⟩ := hs.job_reads hwf h.before hjob
    exact h.prepares c hc (hneed c hc) _ hreads htrap
  · obtain ⟨hc, hreads⟩ := hs.job_reads hwf h.before hjob
    exact h.translates c hc (hneed c hc) _ (hs.translating_settled hwf h.before hjob) hreads
      (hs.freshOrSettled hwf h.before) htrap

/-- **Every run can be finished**, if every component has what it needs. -/
theorem exists_run (hwf : P.Wf) (h : P.Needs reads need) (hneed : ∀ c ∈ P.components, need c)
    (hs : P.Reachable s) : ∃ choices t, P.run s choices = some t ∧ t.Quiescent :=
  hs.exists_run hwf fun _ ht => h.not_traps hwf hneed ht

/-- A component that is done has what it needs. -/
theorem of_done (hwf : P.Wf) (h : P.Needs reads need) (hs : P.Reachable s) {c : ι}
    (hc : c ∈ P.components) (hdone : (s.cells c).isDone = true) : need c := by
  obtain ⟨t, -, ht⟩ := (hs.consistent hwf h.before c).fixed (hs.done_fixed hwf hdone).1
  exact h.needed c hc t ht

/-- A run that is finished has given every component what it needs. -/
theorem of_quiescent (hwf : P.Wf) (h : P.Needs reads need) (hs : P.Reachable s)
    (hquiescent : s.Quiescent) : ∀ c ∈ P.components, need c := fun _ hc =>
  h.of_done hwf hs hc (hs.quiescent_done hwf hquiescent hc)

/-- **Every run comes to a job that does not return**, if a component lacks what it needs. -/
theorem exists_trap (hwf : P.Wf) (h : P.Needs reads need) (hlack : ¬ ∀ c ∈ P.components, need c)
    (hs : P.Reachable s) : ∃ choices t, P.run s choices = some t ∧ P.Traps t := by
  obtain ⟨choices, t, hrun, hend⟩ := hs.finishes_or_traps hwf
  refine ⟨choices, t, hrun, ?_⟩
  rcases hend with hquiescent | htraps
  · exact absurd (h.of_quiescent hwf (Plan.reachable_of_run _ hs hrun) hquiescent) hlack
  · exact htraps

end Plan.Needs

end Mocha.Lib
