import Mocha.Lib.ScheduleInvariant

/-!
# What a schedule guarantees

For a well-formed plan and every order of steps:

* **`Plan.Reachable.starts_le_one`**, **`Plan.Reachable.parents_prepared`**: a component is begun at
  most once, and only after all of its parents are prepared;
* **`Plan.Reachable.done_fixed`**: a component is marked as done only after its groups were fixed;
* **`Plan.Reachable.quiescent_done`**: when neither a message nor a job is left, everything is done;
* **`Plan.Reachable.groups_eq`**: if every component reads only the states of components that come
  before it (`Plan.ReadsOnly`), the groups of a component do not depend on the order of steps.

The last one goes through `Settled`: the state a component must get, whatever the order, because it is
computed from the settled states of what it reads.
-/

namespace Mocha.Lib

open Function

variable {ι σ τ : Type} [DecidableEq ι] {P : Plan ι σ τ}

/-! ## Order and completeness -/

omit [DecidableEq ι] in
theorem Phase.prepared_of_not_owes {p : Phase ι} {d : ι} (h : ¬ p.Owes d) : p.prepared = true := by
  cases p with
  | waiting => exact absurd trivial h
  | running stage =>
    cases stage with
    | dispatched => exact absurd trivial h
    | preparing => exact absurd trivial h
    | _ => rfl
  | finished => rfl
  | done => rfl

omit [DecidableEq ι] in
theorem Phase.started_of_prepared {p : Phase ι} (h : p.prepared = true) : p.started = true := by
  cases p with
  | waiting => cases h
  | running stage =>
    cases stage with
    | dispatched => cases h
    | preparing => cases h
    | _ => rfl
  | finished => rfl
  | done => rfl

theorem ScheduleInv.started_parents {s : State ι σ τ} {phase : ι → Phase ι} {first : List ι}
    {sent : List (Message ι)} (hwf : P.Wf) (h : ScheduleInv P s phase first sent) {p c : ι}
    (hc : phase c ≠ .waiting) (hedge : (p, c) ∈ P.edges) : (s.cells p).prepared = true := by
  have hmem := (hwf.edge_mem p c hedge).2
  have hno : ¬ (c ∈ first ∨ (s.cells c).parents ≠ []) := fun ho => hc ((h.waiting_iff c hmem).mpr ho)
  have hnone : (s.cells c).parents = [] := by
    by_contra hne
    exact hno (.inr hne)
  have hnot : p ∉ (s.cells c).parents := by
    rw [hnone]
    exact List.not_mem_nil
  rw [h.parents_iff] at hnot
  have howes : ¬ (phase p).Owes c := fun ho => hnot ⟨hedge, .inl ho⟩
  rw [(h.cell p).prepared]
  exact Phase.prepared_of_not_owes howes

/-- The components that come before `c`. -/
def Plan.Before (P : Plan ι σ τ) (p c : ι) : Prop :=
  Relation.TransGen (fun p c => (p, c) ∈ P.edges) p c

theorem ScheduleInv.started_before {s : State ι σ τ} {phase : ι → Phase ι} {first : List ι}
    {sent : List (Message ι)} (hwf : P.Wf) (h : ScheduleInv P s phase first sent) {p c : ι}
    (hc : phase c ≠ .waiting) (hbefore : P.Before p c) : (s.cells p).prepared = true := by
  induction hbefore with
  | single hedge => exact h.started_parents hwf hc hedge
  | tail _ hedge ih =>
    -- a prepared component was begun, so the ones before it are prepared
    rename_i b c _
    refine ih ?_
    have hb := h.started_parents hwf hc hedge
    rw [(h.cell b).prepared] at hb
    intro hw
    rw [hw] at hb
    cases hb

section Guarantees

variable {s : State ι σ τ}

/-- **At most once.** -/
theorem Plan.Reachable.starts_le_one (hwf : P.Wf) (hs : P.Reachable s) (c : ι) :
    (s.cells c).starts ≤ 1 := by
  obtain ⟨phase, first, sent, h⟩ := hs.inv hwf
  rw [(h.cell c).starts]
  split
  · exact Nat.le_refl 1
  · exact Nat.zero_le 1

/-- **In order.** -/
theorem Plan.Reachable.before_prepared (hwf : P.Wf) (hs : P.Reachable s) {p c : ι}
    (hstart : 0 < (s.cells c).starts) (hbefore : P.Before p c) : (s.cells p).prepared = true := by
  obtain ⟨phase, first, sent, h⟩ := hs.inv hwf
  refine h.started_before hwf ?_ hbefore
  intro hw
  rw [(h.cell c).starts, hw] at hstart
  exact absurd hstart (Nat.lt_irrefl 0)

theorem Plan.Reachable.parents_prepared (hwf : P.Wf) (hs : P.Reachable s) {p c : ι}
    (hstart : 0 < (s.cells c).starts) (hedge : (p, c) ∈ P.edges) :
    (s.cells p).prepared = true :=
  hs.before_prepared hwf hstart (.single hedge)

/-- **Done is fixed.** -/
theorem Plan.Reachable.done_fixed (hwf : P.Wf) (hs : P.Reachable s) {c : ι}
    (hdone : (s.cells c).isDone = true) :
    (s.cells c).isFixed = true ∧ ∃ t, (s.cells c).groups = some (P.fix c t) := by
  obtain ⟨phase, first, sent, h⟩ := hs.inv hwf
  have hcell := h.cell c
  rw [hcell.isDone] at hdone
  cases hc : phase c with
  | done =>
    rw [hc] at hcell
    exact ⟨hcell.isFixed, hcell.groups rfl⟩
  | _ =>
    rw [hc] at hdone
    cases hdone

/-- A component that is done was begun. -/
theorem Plan.Reachable.done_starts (hwf : P.Wf) (hs : P.Reachable s) {c : ι}
    (hdone : (s.cells c).isDone = true) : (s.cells c).starts = 1 := by
  obtain ⟨phase, first, sent, h⟩ := hs.inv hwf
  rw [(h.cell c).isDone] at hdone
  rw [(h.cell c).starts]
  cases hc : phase c with
  | done => rfl
  | _ =>
    rw [hc] at hdone
    cases hdone

/-- So was a component that is prepared. -/
theorem Plan.Reachable.prepared_starts (hwf : P.Wf) (hs : P.Reachable s) {c : ι}
    (hprepared : (s.cells c).prepared = true) : 0 < (s.cells c).starts := by
  obtain ⟨phase, first, sent, h⟩ := hs.inv hwf
  rw [(h.cell c).prepared] at hprepared
  rw [(h.cell c).starts, if_pos (Phase.started_of_prepared hprepared)]
  exact Nat.one_pos

/-- **Never stuck**: when nothing is left to do, everything is done. -/
theorem Plan.Reachable.quiescent_done (hwf : P.Wf) (hs : P.Reachable s) (hq : s.Quiescent) {c : ι}
    (hc : c ∈ P.components) : (s.cells c).isDone = true := by
  obtain ⟨phase, first, sent, h⟩ := hs.inv hwf
  obtain ⟨rank, hrank⟩ := hwf.rank
  obtain ⟨hqueue, hjobs⟩ := hq
  have hempty := h.queue
  rw [hqueue, eq_comm, List.append_eq_nil_iff, List.map_eq_nil_iff] at hempty
  obtain ⟨rfl, rfl⟩ := hempty
  have hnojob : ∀ d st, phase d ≠ .running st := by
    intro d st hd
    rw [← h.pool.mem_iff, hjobs] at hd
    exact absurd hd List.not_mem_nil
  -- by induction on the rank, no component waits for another one
  have hwait : ∀ n c, rank c = n → c ∈ P.components → phase c ≠ .waiting := by
    intro n
    induction n using Nat.strongRecOn with
    | ind n ih =>
      intro c hn hc hw
      rcases (h.waiting_iff c hc).mp hw with hfirst | hparents
      · exact absurd hfirst List.not_mem_nil
      · obtain ⟨p, hp⟩ := List.exists_mem_of_ne_nil _ hparents
        obtain ⟨hedge, howes | hmsg⟩ := (h.parents_iff p c).mp hp
        · have hpw := ih (rank p) (hn ▸ hrank p c hedge) p rfl (hwf.edge_mem p c hedge).1
          cases hph : phase p with
          | waiting => exact hpw hph
          | running st => exact hnojob p st hph
          | finished =>
            rw [hph] at howes
            exact howes
          | done =>
            rw [hph] at howes
            exact howes
        · exact absurd hmsg List.not_mem_nil
  rw [(h.cell c).isDone]
  cases hph : phase c with
  | waiting => exact absurd hph (hwait _ c rfl hc)
  | running st => exact absurd hph (hnojob c st)
  | finished => exact absurd ((h.messages.finish_iff c).mpr hph) List.not_mem_nil
  | done => rfl

end Guarantees

/-! ## Independence of the order -/

/-- What a component looks at while it is prepared and translated. -/
structure Plan.ReadsOnly (P : Plan ι σ τ) (reads : ι → List ι) : Prop where
  before : ∀ c, ∀ r ∈ reads c, P.Before r c
  prepare : ∀ c st st', (∀ r ∈ reads c, st r = st' r) → P.prepare st c = P.prepare st' c
  translate : ∀ c st st', st c = st' c → (∀ r ∈ reads c, st r = st' r) →
    P.translate st c = P.translate st' c

/-- The state a component gets from the settled states of what it reads. -/
inductive Settled (P : Plan ι σ τ) (reads : ι → List ι) : ι → σ → Prop
  | mk {c : ι} {v : σ} (st : ι → σ) (hreads : ∀ r ∈ reads c, Settled P reads r (st r))
      (hv : P.prepare st c = some v) : Settled P reads c v

/-- The groups a component gets from settled states, before they are fixed. -/
def Translated (P : Plan ι σ τ) (reads : ι → List ι) (c : ι) (t : τ) : Prop :=
  ∃ st : ι → σ, Settled P reads c (st c) ∧ (∀ r ∈ reads c, Settled P reads r (st r)) ∧
    P.translate st c = some t

variable {reads : ι → List ι}

omit [DecidableEq ι] in
theorem Settled.unique (hr : P.ReadsOnly reads) {c : ι} {v : σ} (h : Settled P reads c v) :
    ∀ {v' : σ}, Settled P reads c v' → v = v' := by
  induction h with
  | mk st _ hv ih =>
    intro v' h'
    cases h' with
    | mk st' hreads' hv' =>
      rw [hr.prepare _ st st' fun r hmem => ih r hmem (hreads' r hmem), hv'] at hv
      exact (Option.some.inj hv).symm

omit [DecidableEq ι] in
theorem Translated.unique (hr : P.ReadsOnly reads) {c : ι} {t t' : τ}
    (h : Translated P reads c t) (h' : Translated P reads c t') : t = t' := by
  obtain ⟨st, hself, hreads, ht⟩ := h
  obtain ⟨st', hself', hreads', ht'⟩ := h'
  rw [hr.translate c st st' (hself.unique hr hself')
    fun r hmem => (hreads r hmem).unique hr (hreads' r hmem), ht'] at ht
  exact (Option.some.inj ht).symm

/-- What is stored for a component is what it must be. -/
structure Consistent (P : Plan ι σ τ) (reads : ι → List ι) (c : ι) (cell : Cell ι σ τ) : Prop where
  state : cell.prepared = true → Settled P reads c cell.state
  raw : cell.isFixed = false → ∀ t, cell.groups = some t → Translated P reads c t
  fixed : cell.isFixed = true → ∃ t, cell.groups = some (P.fix c t) ∧ Translated P reads c t

/-- The main thread changes no state and no groups. -/
theorem Plan.mainStep_stored {s t : State ι σ τ} (h : Plan.mainStep s = some t) (d : ι) :
    (t.cells d).state = (s.cells d).state ∧ (t.cells d).prepared = (s.cells d).prepared ∧
      (t.cells d).groups = (s.cells d).groups ∧ (t.cells d).isFixed = (s.cells d).isFixed := by
  rcases Plan.mainStep_cases h with ⟨c, queue, _, rfl⟩ | ⟨c, ready, queue, _, ht⟩
  · by_cases hd : d = c
    · rw [hd, State.modify_self]
      exact ⟨rfl, rfl, rfl, rfl⟩
    · rw [State.modify_of_ne _ hd]
      exact ⟨rfl, rfl, rfl, rfl⟩
  · have hcell : t.cells d = (State.modify { s with queue } c (Plan.received ready)).cells d := by
      rcases ht with ⟨_, rfl⟩ | ⟨_, rfl⟩ <;> rfl
    rw [hcell]
    by_cases hd : d = c
    · rw [hd, State.modify_self]
      cases ready <;> exact ⟨rfl, rfl, rfl, rfl⟩
    · rw [State.modify_of_ne _ hd]
      exact ⟨rfl, rfl, rfl, rfl⟩

/-- The steps that change a component's state or groups. -/
theorem Plan.Step.cell_cases {s t : State ι σ τ} (h : P.Step s t) (d : ι) :
    ((t.cells d).state = (s.cells d).state ∧ (t.cells d).prepared = (s.cells d).prepared ∧
      (t.cells d).groups = (s.cells d).groups ∧ (t.cells d).isFixed = (s.cells d).isFixed) ∨
    (∃ v, (d, .preparing) ∈ s.jobs ∧ P.prepare s.states d = some v ∧
      t.cells d = { s.cells d with state := v, prepared := true }) ∨
    (∃ v, (d, .translating) ∈ s.jobs ∧ P.translate s.states d = some v ∧
      t.cells d = { s.cells d with groups := some v }) ∨
    ((d, .fixing) ∈ s.jobs ∧
      t.cells d = { s.cells d with groups := (s.cells d).groups.map (P.fix d), isFixed := true }) := by
  obtain ⟨choice, h⟩ := h
  cases choice with
  | main => exact .inl (Plan.mainStep_stored h d)
  | job index =>
    obtain ⟨c, stage, js, ks, r, hjobs, hr, rfl⟩ := Plan.job_cases h
    by_cases hd : d = c
    · subst hd
      have hmem : (d, stage) ∈ s.jobs := by
        rw [hjobs]
        simp
      cases stage with
      | dispatched =>
        cases hr
        left
        simp
      | preparing =>
        rw [Plan.jobStep, Option.map_eq_some_iff] at hr
        obtain ⟨v, hv, rfl⟩ := hr
        exact .inr (.inl ⟨v, hmem, hv, by simp⟩)
      | notifying ds =>
        left
        cases ds with
        | nil =>
          cases hr
          simp
        | cons e es =>
          cases hr
          exact ⟨rfl, rfl, rfl, rfl⟩
      | translating =>
        rw [Plan.jobStep, Option.map_eq_some_iff] at hr
        obtain ⟨v, hv, rfl⟩ := hr
        exact .inr (.inr (.inl ⟨v, hmem, hv, by simp⟩))
      | fixing =>
        cases hr
        exact .inr (.inr (.inr ⟨hmem, by simp⟩))
      | finishing =>
        cases hr
        exact .inl ⟨rfl, rfl, rfl, rfl⟩
    · have hcell := Plan.jobStep_frame hr hd
      left
      change (r.1.cells d).state = _ ∧ (r.1.cells d).prepared = _ ∧ (r.1.cells d).groups = _ ∧
        (r.1.cells d).isFixed = _
      rw [hcell]
      exact ⟨rfl, rfl, rfl, rfl⟩

/-- A step keeps what is stored consistent, for `reads` that come before their reader. -/
theorem Consistent.step {s t : State ι σ τ} {phase : ι → Phase ι} {first : List ι}
    {sent : List (Message ι)} (hwf : P.Wf) (hbefore : ∀ c, ∀ r ∈ reads c, P.Before r c)
    (hinv : ScheduleInv P s phase first sent) (h : ∀ c, Consistent P reads c (s.cells c))
    (hstep : P.Step s t) (c : ι) : Consistent P reads c (t.cells c) := by
  have hrunning : ∀ {st}, (c, st) ∈ s.jobs → phase c = .running st :=
    fun hm => (hinv.pool.mem_iff c _).mp hm
  have hsettled : ∀ {st}, (c, st) ∈ s.jobs →
      ∀ r ∈ reads c, Settled P reads r (s.cells r).state := by
    intro st hm r hmem
    refine (h r).state (hinv.started_before hwf (c := c) ?_ (hbefore c r hmem))
    rw [hrunning hm]
    intro he
    cases he
  rcases hstep.cell_cases c with ⟨h1, h2, h3, h4⟩ | ⟨v, hm, hv, hcell⟩ | ⟨v, hm, hv, hcell⟩ |
    ⟨hm, hcell⟩
  · obtain ⟨hstate, hraw, hfixed⟩ := h c
    refine ⟨?_, ?_, ?_⟩
    · rwa [h1, h2]
    · rwa [h3, h4]
    · rwa [h3, h4]
  · rw [hcell]
    exact ⟨fun _ => .mk s.states (hsettled hm) hv, (h c).raw, (h c).fixed⟩
  · rw [hcell]
    have hphase := hinv.cell c
    rw [hrunning hm] at hphase
    have hprepared : (s.cells c).prepared = true := hphase.prepared
    refine ⟨(h c).state, ?_, ?_⟩
    · intro _ u hu
      cases hu
      exact ⟨s.states, (h c).state hprepared, hsettled hm, hv⟩
    · intro hf
      rw [show (s.cells c).isFixed = false from hphase.isFixed] at hf
      cases hf
  · rw [hcell]
    have hphase := hinv.cell c
    rw [hrunning hm] at hphase
    obtain ⟨u, hu⟩ := hphase.fixing rfl
    refine ⟨(h c).state, ?_, ?_⟩
    · intro hf
      cases hf
    · intro _
      exact ⟨u, by rw [hu]; rfl, (h c).raw hphase.isFixed u hu⟩

/-- What is stored is consistent in every reachable state. -/
theorem Plan.Reachable.consistent {s : State ι σ τ} (hwf : P.Wf)
    (hbefore : ∀ c, ∀ r ∈ reads c, P.Before r c) (hs : P.Reachable s) (c : ι) :
    Consistent P reads c (s.cells c) := by
  induction hs generalizing c with
  | refl =>
    refine ⟨?_, ?_, ?_⟩
    · intro he
      cases he
    · intro _ t ht
      cases ht
    · intro he
      cases he
  | tail hs hstep ih =>
    obtain ⟨phase, first, sent, hinv⟩ := Plan.Reachable.inv hwf hs
    exact Consistent.step hwf hbefore hinv ih hstep c

/-- **The order does not matter**: a component that is done in two runs has the same groups in
both. -/
theorem Plan.Reachable.groups_eq {s s' : State ι σ τ} (hwf : P.Wf) (hr : P.ReadsOnly reads)
    (hs : P.Reachable s) (hs' : P.Reachable s') {c : ι} (hdone : (s.cells c).isDone = true)
    (hdone' : (s'.cells c).isDone = true) : (s.cells c).groups = (s'.cells c).groups := by
  obtain ⟨t, hgroups, ht⟩ := (hs.consistent hwf hr.before c).fixed (hs.done_fixed hwf hdone).1
  obtain ⟨t', hgroups', ht'⟩ := (hs'.consistent hwf hr.before c).fixed (hs'.done_fixed hwf hdone').1
  rw [hgroups, hgroups', ht.unique hr ht']

/-- What a job reads is prepared, from the moment it is in the pool. -/
theorem Plan.Reachable.reads_prepared {s : State ι σ τ} (hwf : P.Wf) (hr : P.ReadsOnly reads)
    (hs : P.Reachable s) {c r : ι} {stage : Stage ι} (hjob : (c, stage) ∈ s.jobs)
    (hmem : r ∈ reads c) : (s.cells r).prepared = true := by
  obtain ⟨phase, first, sent, h⟩ := hs.inv hwf
  refine h.started_before hwf (c := c) ?_ (hr.before c r hmem)
  rw [(h.pool.mem_iff c stage).mp hjob]
  intro he
  cases he

/-! ## What stays -/

/-- A component that is done stays so. -/
theorem Plan.Step.isDone_of_isDone {s t : State ι σ τ} (h : P.Step s t) {c : ι}
    (hdone : (s.cells c).isDone = true) : (t.cells c).isDone = true := by
  obtain ⟨choice, h⟩ := h
  cases choice with
  | main =>
    rcases Plan.mainStep_cases h with ⟨d, queue, -, rfl⟩ | ⟨d, ready, queue, -, ht⟩
    · by_cases hc : c = d
      · rw [hc, State.modify_self]
      · rwa [State.modify_of_ne _ hc]
    · have hcell : t.cells c = (State.modify { s with queue } d (Plan.received ready)).cells c := by
        rcases ht with ⟨-, rfl⟩ | ⟨-, rfl⟩ <;> rfl
      rw [hcell]
      by_cases hc : c = d
      · subst hc
        rw [State.modify_self]
        cases ready <;> exact hdone
      · rwa [State.modify_of_ne _ hc]
  | job index =>
    obtain ⟨d, stage, js, ks, r, -, hr, rfl⟩ := Plan.job_cases h
    by_cases hc : c = d
    · subst hc
      cases stage with
      | notifying ds =>
        cases ds with
        | nil =>
          cases hr
          simpa using hdone
        | cons e es =>
          cases hr
          exact hdone
      | dispatched =>
        cases hr
        simpa using hdone
      | fixing =>
        cases hr
        simpa using hdone
      | finishing =>
        cases hr
        exact hdone
      | preparing | translating =>
        rw [Plan.jobStep, Option.map_eq_some_iff] at hr
        obtain ⟨v, -, rfl⟩ := hr
        simpa using hdone
    · exact (congrArg Cell.isDone (Plan.jobStep_frame hr hc)).trans hdone

/-- **So does what it is shown with.** -/
theorem Plan.Reachable.done_stays {s t : State ι σ τ} (hwf : P.Wf) (hs : P.Reachable s)
    (hstep : P.Step s t) {c : ι} (hdone : (s.cells c).isDone = true) :
    (t.cells c).isDone = true ∧ (t.cells c).groups = (s.cells c).groups ∧
      (t.cells c).prepared = (s.cells c).prepared := by
  refine ⟨hstep.isDone_of_isDone hdone, ?_⟩
  obtain ⟨phase, first, sent, h⟩ := hs.inv hwf
  have hidle : ∀ {stage}, (c, stage) ∉ s.jobs := by
    intro stage hjob
    rw [(h.cell c).isDone, (h.pool.mem_iff c stage).mp hjob] at hdone
    cases hdone
  rcases hstep.cell_cases c with ⟨-, hprepared, hgroups, -⟩ | ⟨v, hjob, -, -⟩ | ⟨v, hjob, -, -⟩ | ⟨hjob, -⟩
  · exact ⟨hgroups, hprepared⟩
  · exact absurd hjob hidle
  · exact absurd hjob hidle
  · exact absurd hjob hidle

/-- A component that is done is prepared. -/
theorem Plan.Reachable.done_prepared {s : State ι σ τ} (hwf : P.Wf) (hs : P.Reachable s) {c : ι}
    (hdone : (s.cells c).isDone = true) : (s.cells c).prepared = true := by
  obtain ⟨phase, first, sent, h⟩ := hs.inv hwf
  rw [(h.cell c).isDone] at hdone
  rw [(h.cell c).prepared]
  cases hc : phase c with
  | done => rfl
  | _ =>
    rw [hc] at hdone
    cases hdone

end Mocha.Lib
