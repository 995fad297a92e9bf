import Mocha.Lib.ScheduleInvariant

/-!
# Which steps a schedule can make

* **`Plan.can_step`**: while a message or a job is left, someone can move, unless a job does not
  return from `prepare` or `translate`;
* **`Plan.Reachable.advance`**: a component whose parents have got as far as `translate` can be
  brought there as well, while every other component stays where it is. This is what shows that a
  dependency that was not registered is not waited for.
-/

namespace Mocha.Lib

variable {ι σ τ : Type} [DecidableEq ι] {P : Plan ι σ τ}

/-- What work on `c` alone leaves as it is. -/
structure Apart (c : ι) (s t : State ι σ τ) : Prop where
  prepared : ∀ d, d ≠ c → (t.cells d).prepared = (s.cells d).prepared
  jobs : ∀ j ∈ s.jobs, j.1 ≠ c → j ∈ t.jobs

omit [DecidableEq ι] in
theorem Apart.refl (c : ι) (s : State ι σ τ) : Apart c s s := ⟨fun _ _ => rfl, fun _ hj _ => hj⟩

omit [DecidableEq ι] in
theorem Apart.trans {c : ι} {s t u : State ι σ τ} (h : Apart c s t) (h' : Apart c t u) :
    Apart c s u := by
  refine ⟨?_, ?_⟩
  · intro d hd
    rw [h'.prepared d hd, h.prepared d hd]
  · intro j hj hne
    exact h'.jobs j (h.jobs j hj hne) hne

/-! ## The main thread -/

/-- The main thread can handle any message, and prepares nothing. -/
theorem Plan.mainStep_some {s : State ι σ τ} {m : Message ι} {queue : List (Message ι)}
    (hqueue : s.queue = m :: queue) :
    ∃ t, Plan.mainStep s = some t ∧ t.queue = queue ∧
      (∀ d, (t.cells d).prepared = (s.cells d).prepared) ∧ ∀ j ∈ s.jobs, j ∈ t.jobs := by
  have hsome : ∃ t, Plan.mainStep s = some t := by
    unfold Plan.mainStep
    rw [hqueue]
    cases m with
    | finish c => exact ⟨_, rfl⟩
    | start c ready =>
      simp only
      split
      · exact ⟨_, rfl⟩
      · exact ⟨_, rfl⟩
  obtain ⟨t, ht⟩ := hsome
  refine ⟨t, ht, ?_⟩
  rcases Plan.mainStep_cases ht with ⟨c, rest, hrest, rfl⟩ | ⟨c, ready, rest, hrest, hcases⟩
  · rw [hqueue, List.cons.injEq] at hrest
    refine ⟨hrest.2.symm, ?_, fun j hj => hj⟩
    intro d
    by_cases hd : d = c
    · rw [hd, State.modify_self]
    · rw [State.modify_of_ne _ hd]
  · rw [hqueue, List.cons.injEq] at hrest
    have hprepared : ∀ d, ((State.modify { s with queue := rest } c
        (Plan.received ready)).cells d).prepared = (s.cells d).prepared := by
      intro d
      by_cases hd : d = c
      · rw [hd, State.modify_self]
        cases ready <;> rfl
      · rw [State.modify_of_ne _ hd]
    rcases hcases with ⟨_, rfl⟩ | ⟨_, rfl⟩
    · exact ⟨hrest.2.symm, hprepared, fun j hj => List.mem_append_left _ hj⟩
    · exact ⟨hrest.2.symm, hprepared, fun j hj => hj⟩

/-- The main thread can handle all messages. -/
theorem Plan.drain (s : State ι σ τ) :
    ∃ t, Relation.ReflTransGen P.Step s t ∧ t.queue = [] ∧
      (∀ d, (t.cells d).prepared = (s.cells d).prepared) ∧ ∀ j ∈ s.jobs, j ∈ t.jobs := by
  induction hqueue : s.queue generalizing s with
  | nil => exact ⟨s, .refl, hqueue, fun _ => rfl, fun _ hj => hj⟩
  | cons m queue ih =>
    obtain ⟨t, ht, hrest, hprepared, hjobs⟩ := Plan.mainStep_some hqueue
    obtain ⟨u, hu, hempty, hprepared', hjobs'⟩ := ih t hrest
    refine ⟨u, .head ⟨.main, ht⟩ hu, hempty, ?_, fun j hj => hjobs' j (hjobs j hj)⟩
    intro d
    rw [hprepared', hprepared]

/-! ## Jobs -/

/-- A job that returns makes its step. -/
theorem Plan.step_of_job {s : State ι σ τ} {c : ι} {stage : Stage ι}
    {r : State ι σ τ × Option (Stage ι)} (hjob : (c, stage) ∈ s.jobs)
    (hr : P.jobStep s c stage = some r) :
    ∃ t, P.Step s t ∧ t.cells = r.1.cells ∧ (∀ next, r.2 = some next → (c, next) ∈ t.jobs) ∧
      ∀ j ∈ s.jobs, j.1 ≠ c → j ∈ t.jobs := by
  obtain ⟨index, hlt, hget⟩ := List.mem_iff_getElem.mp hjob
  have hget? : s.jobs[index]? = some (c, stage) := by
    rw [List.getElem?_eq_getElem hlt, hget]
  -- a job of another component is at another index
  have hother : ∀ j ∈ s.jobs, j.1 ≠ c →
      ∃ (i : Nat) (hi : i < s.jobs.length), index ≠ i ∧ s.jobs[i] = j := by
    intro j hj hne
    obtain ⟨i, hi, hji⟩ := List.mem_iff_getElem.mp hj
    refine ⟨i, hi, ?_, hji⟩
    intro he
    subst he
    rw [hget] at hji
    exact hne (by rw [← hji])
  obtain ⟨u, o⟩ := r
  cases o with
  | none =>
    have hstep : P.step? s (.job index) = some { u with jobs := s.jobs.eraseIdx index } := by
      simp only [Plan.step?, hget?, hr, Option.map_some]
    refine ⟨_, ⟨.job index, hstep⟩, rfl, nofun, ?_⟩
    intro j hj hne
    obtain ⟨i, hi, hindex, hji⟩ := hother j hj hne
    simp only
    rw [List.mem_eraseIdx_iff_getElem]
    exact ⟨i, hi, hindex.symm, hji⟩
  | some next =>
    have hstep : P.step? s (.job index) = some { u with jobs := s.jobs.set index (c, next) } := by
      simp only [Plan.step?, hget?, hr, Option.map_some]
    refine ⟨_, ⟨.job index, hstep⟩, rfl, ?_, ?_⟩
    · intro next' hnext
      cases hnext
      exact List.mem_set hlt _
    · intro j hj hne
      obtain ⟨i, hi, hindex, hji⟩ := hother j hj hne
      refine List.mem_iff_getElem.mpr ⟨i, by rwa [List.length_set], ?_⟩
      rw [List.getElem_set_ne hindex, hji]

/-- **Someone can move.** -/
theorem Plan.can_step {s : State ι σ τ} (hs : ¬ s.Quiescent) :
    (∃ t, P.Step s t) ∨
      ∃ c, ((c, .preparing) ∈ s.jobs ∧ P.prepare s.states c = none) ∨
        ((c, .translating) ∈ s.jobs ∧ P.translate s.states c = none) := by
  cases hqueue : s.queue with
  | cons m queue =>
    obtain ⟨t, ht, _⟩ := Plan.mainStep_some hqueue
    exact .inl ⟨t, .main, ht⟩
  | nil =>
    cases hjobs : s.jobs with
    | nil => exact absurd ⟨hqueue, hjobs⟩ hs
    | cons job jobs =>
      obtain ⟨c, stage⟩ := job
      have hjob : (c, stage) ∈ s.jobs := by
        rw [hjobs]
        exact List.mem_cons_self
      have hmove : ∀ r, P.jobStep s c stage = some r → ∃ t, P.Step s t := by
        intro r hr
        obtain ⟨t, ht, _⟩ := Plan.step_of_job hjob hr
        exact ⟨t, ht⟩
      rw [← hjobs]
      cases stage with
      | dispatched => exact .inl (hmove _ rfl)
      | preparing =>
        cases hp : P.prepare s.states c with
        | none => exact .inr ⟨c, .inl ⟨hjob, hp⟩⟩
        | some v => exact .inl (hmove _ (by rw [Plan.jobStep, hp]; rfl))
      | notifying ds =>
        cases ds with
        | nil => exact .inl (hmove _ rfl)
        | cons d ds => exact .inl (hmove _ rfl)
      | translating =>
        cases ht : P.translate s.states c with
        | none => exact .inr ⟨c, .inr ⟨hjob, ht⟩⟩
        | some v => exact .inl (hmove _ (by rw [Plan.jobStep, ht]; rfl))
      | fixing => exact .inl (hmove _ rfl)
      | finishing => exact .inl (hmove _ rfl)

/-- One step of a job, seen from the other components. -/
theorem Plan.job_apart {s : State ι σ τ} {c : ι} {stage next : Stage ι} {t : State ι σ τ}
    (hjob : (c, stage) ∈ s.jobs) (hr : P.jobStep s c stage = some (t, some next)) :
    ∃ u, P.Step s u ∧ Apart c s u ∧ (c, next) ∈ u.jobs := by
  obtain ⟨u, hu, hsame, hnext, hjobs⟩ := Plan.step_of_job hjob hr
  refine ⟨u, hu, ⟨?_, hjobs⟩, hnext next rfl⟩
  intro d hd
  rw [hsame, Plan.jobStep_frame hr hd]

/-- A job that notifies its children gets to `translate`. -/
theorem Plan.notify_all {c : ι} (ds : List ι) {s : State ι σ τ}
    (hjob : (c, .notifying ds) ∈ s.jobs) :
    ∃ t, Relation.ReflTransGen P.Step s t ∧ Apart c s t ∧ (c, .translating) ∈ t.jobs := by
  induction ds generalizing s with
  | nil =>
    obtain ⟨t, ht, hapart, hnext⟩ := Plan.job_apart (P := P) hjob rfl
    exact ⟨t, .single ht, hapart, hnext⟩
  | cons d ds ih =>
    obtain ⟨t, ht, hapart, hnext⟩ := Plan.job_apart (P := P) hjob rfl
    obtain ⟨u, hu, hapart', hlast⟩ := ih hnext
    exact ⟨u, .head ht hu, hapart.trans hapart', hlast⟩

/-- A job whose `prepare` returns gets to `translate`. -/
theorem Plan.reach_translating {c : ι} {s : State ι σ τ}
    (hprepare : ∀ st, ∃ v, P.prepare st c = some v)
    (hjob : (c, .dispatched) ∈ s.jobs ∨ (c, .preparing) ∈ s.jobs) :
    ∃ t, Relation.ReflTransGen P.Step s t ∧ Apart c s t ∧ (c, .translating) ∈ t.jobs := by
  have hpreparing : ∀ {s : State ι σ τ}, (c, .preparing) ∈ s.jobs →
      ∃ t, Relation.ReflTransGen P.Step s t ∧ Apart c s t ∧ (c, .translating) ∈ t.jobs := by
    intro s hjob
    obtain ⟨v, hv⟩ := hprepare s.states
    obtain ⟨t, ht, hapart, hnext⟩ := Plan.job_apart (P := P) hjob
      (by rw [Plan.jobStep, hv]; rfl)
    obtain ⟨u, hu, hapart', hlast⟩ := Plan.notify_all _ hnext
    exact ⟨u, .head ht hu, hapart.trans hapart', hlast⟩
  rcases hjob with hjob | hjob
  · obtain ⟨t, ht, hapart, hnext⟩ := Plan.job_apart (P := P) hjob rfl
    obtain ⟨u, hu, hapart', hlast⟩ := hpreparing hnext
    exact ⟨u, .head ht hu, hapart.trans hapart', hlast⟩
  · exact hpreparing hjob

/-- A component that is not prepared and has nothing to wait for is in the pool. -/
theorem Plan.Reachable.in_pool {s : State ι σ τ} (hwf : P.Wf) (hs : P.Reachable s)
    (hqueue : s.queue = []) {c : ι} (hc : c ∈ P.components)
    (hunprepared : (s.cells c).prepared = false)
    (hparents : ∀ p, (p, c) ∈ P.edges → (p, .translating) ∈ s.jobs) :
    (c, .dispatched) ∈ s.jobs ∨ (c, .preparing) ∈ s.jobs := by
  obtain ⟨phase, first, sent, h⟩ := hs.inv hwf
  have hempty := h.queue
  rw [hqueue, eq_comm, List.append_eq_nil_iff, List.map_eq_nil_iff] at hempty
  obtain ⟨rfl, rfl⟩ := hempty
  have hnone : (s.cells c).parents = [] := by
    rw [List.eq_nil_iff_forall_not_mem]
    intro p hp
    obtain ⟨hedge, howes | hmsg⟩ := (h.parents_iff p c).mp hp
    · rw [(h.pool.mem_iff p .translating).mp (hparents p hedge)] at howes
      exact howes
    · exact absurd hmsg List.not_mem_nil
  have hnot : phase c ≠ .waiting := by
    intro hw
    rcases (h.waiting_iff c hc).mp hw with hfirst | hne
    · exact absurd hfirst List.not_mem_nil
    · exact hne hnone
  rw [(h.cell c).prepared] at hunprepared
  rw [h.pool.mem_iff, h.pool.mem_iff]
  cases hphase : phase c with
  | waiting => exact absurd hphase hnot
  | running stage =>
    rw [hphase] at hunprepared
    cases stage with
    | dispatched => exact .inl rfl
    | preparing => exact .inr rfl
    | _ => cases hunprepared
  | finished =>
    rw [hphase] at hunprepared
    cases hunprepared
  | done =>
    rw [hphase] at hunprepared
    cases hunprepared

/-- **A component can be brought to `translate` alone**, once its parents are there. -/
theorem Plan.Reachable.advance {s : State ι σ τ} (hwf : P.Wf) (hs : P.Reachable s)
    (hqueue : s.queue = []) {c : ι} (hc : c ∈ P.components)
    (hunprepared : (s.cells c).prepared = false)
    (hparents : ∀ p, (p, c) ∈ P.edges → (p, .translating) ∈ s.jobs)
    (hprepare : ∀ st, ∃ v, P.prepare st c = some v) :
    ∃ t, P.Reachable t ∧ t.queue = [] ∧ Apart c s t ∧ (c, .translating) ∈ t.jobs := by
  obtain ⟨t, ht, hapart, hjob⟩ :=
    Plan.reach_translating hprepare (hs.in_pool hwf hqueue hc hunprepared hparents)
  obtain ⟨u, hu, hempty, hprepared, hjobs⟩ := Plan.drain (P := P) t
  refine ⟨u, (Relation.ReflTransGen.trans hs ht).trans hu, hempty, ?_, hjobs _ hjob⟩
  refine hapart.trans ⟨fun d _ => hprepared d, fun j hj _ => hjobs j hj⟩

end Mocha.Lib
