import Mocha.Lib.Schedule

/-!
# The invariant of a schedule

`Phase` is where a component stands: waiting, in the pool with a `Stage`, waiting for its `finish`
message to be handled, or done. The invariant `ScheduleInv` ties a phase of every component to what
the state really holds: the pool has one job for every component in that phase and no other, the queue
is the `start` messages not yet handled followed by the messages sent since, a component's remaining
parents are exactly the ones it has not heard of, and a component waits exactly as long as its first
message is unhandled or it has such parents.

**`ScheduleInv.step`**: every step of the main thread or of a job keeps it. The order of the queue
matters in one place: the first `start` message of a component is handled before any message of a
parent, so a component whose last parent reports is never dispatched by both.
-/

namespace Mocha.Lib

open Function

/-- Where a component stands. -/
inductive Phase (ι : Type) where
  | waiting
  | running (stage : Stage ι)
  | finished
  | done

namespace Phase

variable {ι : Type}

/-- `prepare` was begun. -/
def started : Phase ι → Bool
  | .waiting | .running .dispatched => false
  | _ => true

/-- `prepare` has returned. -/
def prepared : Phase ι → Bool
  | .waiting | .running .dispatched | .running .preparing => false
  | _ => true

/-- The children were not forgotten yet. -/
def keepsChildren : Phase ι → Bool
  | .waiting | .running .dispatched | .running .preparing | .running (.notifying _) => true
  | _ => false

/-- `fix` was applied. -/
def isFixed : Phase ι → Bool
  | .running .finishing | .finished | .done => true
  | _ => false

/-- The `finish` message was handled. -/
def isDone : Phase ι → Bool
  | .done => true
  | _ => false

/-- The child `d` has not been notified. -/
def Owes (d : ι) : Phase ι → Prop
  | .waiting | .running .dispatched | .running .preparing => True
  | .running (.notifying ds) => d ∈ ds
  | _ => False

end Phase

section Invariant

variable {ι σ τ : Type} [DecidableEq ι]

/-- The edges of a plan run between its components, each once, and never in a circle. -/
structure Plan.Wf (P : Plan ι σ τ) : Prop where
  components_nodup : P.components.Nodup
  edges_nodup : P.edges.Nodup
  edge_mem : ∀ p c, (p, c) ∈ P.edges → p ∈ P.components ∧ c ∈ P.components
  rank : ∃ rank : ι → Nat, ∀ p c, (p, c) ∈ P.edges → rank p < rank c

/-- What a phase says about the cell of the component. -/
structure CellOk (P : Plan ι σ τ) (c : ι) (cell : Cell ι σ τ) (phase : Phase ι) : Prop where
  starts : cell.starts = if phase.started then 1 else 0
  prepared : cell.prepared = phase.prepared
  children : phase.keepsChildren = true → cell.children = P.children c
  isFixed : cell.isFixed = phase.isFixed
  groups : phase.isFixed = true → ∃ t, cell.groups = some (P.fix c t)
  fixing : phase = .running .fixing → ∃ t, cell.groups = some t
  isDone : cell.isDone = phase.isDone
  notifying : ∀ ds, phase = .running (.notifying ds) → ds.Nodup ∧ ∀ d ∈ ds, (c, d) ∈ P.edges

/-- The pool has exactly the jobs the phases say. -/
structure PoolOk (jobs : List (ι × Stage ι)) (phase : ι → Phase ι) : Prop where
  nodup : (jobs.map Prod.fst).Nodup
  mem_iff : ∀ c stage, (c, stage) ∈ jobs ↔ phase c = .running stage

/-- The messages sent since the beginning: at most one per edge and one per finished component. -/
structure SentOk (P : Plan ι σ τ) (sent : List (Message ι)) (phase : ι → Phase ι) : Prop where
  nodup : sent.Nodup
  not_first : ∀ c, .start c none ∉ sent
  ready : ∀ p c, .start c (some p) ∈ sent → (p, c) ∈ P.edges ∧ ¬ (phase p).Owes c
  finish_iff : ∀ c, .finish c ∈ sent ↔ phase c = .finished

/-- The part of the invariant that says what the state holds, for the components `first` whose first
message is not handled yet and the messages `sent` since the beginning. -/
structure ScheduleBase (P : Plan ι σ τ) (s : State ι σ τ) (phase : ι → Phase ι) (first : List ι)
    (sent : List (Message ι)) : Prop where
  queue : s.queue = first.map (fun c => .start c none) ++ sent
  first_nodup : first.Nodup
  cell : ∀ c, CellOk P c (s.cells c) (phase c)
  pool : PoolOk s.jobs phase
  messages : SentOk P sent phase
  parents_iff : ∀ p c, p ∈ (s.cells c).parents ↔
    (p, c) ∈ P.edges ∧ ((phase p).Owes c ∨ .start c (some p) ∈ sent)
  outside : ∀ c, c ∉ P.components → phase c = .waiting ∧ c ∉ first

/-- The invariant: a component waits exactly while it has something to wait for. -/
structure ScheduleInv (P : Plan ι σ τ) (s : State ι σ τ) (phase : ι → Phase ι) (first : List ι)
    (sent : List (Message ι)) : Prop extends ScheduleBase P s phase first sent where
  waiting_iff : ∀ c ∈ P.components,
    phase c = .waiting ↔ c ∈ first ∨ (s.cells c).parents ≠ []

variable {P : Plan ι σ τ}

theorem Plan.mem_parents {p c : ι} : p ∈ P.parents c ↔ (p, c) ∈ P.edges := by
  unfold Plan.parents
  simp

theorem Plan.mem_children {p c : ι} : c ∈ P.children p ↔ (p, c) ∈ P.edges := by
  unfold Plan.children
  simp

theorem Plan.Wf.children_nodup (h : P.Wf) (c : ι) : (P.children c).Nodup := by
  unfold Plan.children
  refine (h.edges_nodup.filter _).map_on ?_
  intro x hx y hy hxy
  have hx1 := of_decide_eq_true (List.mem_filter.mp hx).2
  have hy1 := of_decide_eq_true (List.mem_filter.mp hy).2
  exact Prod.ext (hx1.trans hy1.symm) hxy

/-- The invariant holds at the beginning. -/
theorem ScheduleInv.start (h : P.Wf) : ScheduleInv P P.start (fun _ => .waiting) P.components [] where
  queue := by simp [Plan.start]
  first_nodup := h.components_nodup
  cell c := by
    constructor <;> simp [Plan.start, Phase.started, Phase.prepared, Phase.isFixed, Phase.isDone]
  pool := ⟨by simp [Plan.start], by simp [Plan.start]⟩
  messages := ⟨List.nodup_nil, by simp, by simp, by simp⟩
  parents_iff p c := by
    change p ∈ P.parents c ↔ _
    rw [Plan.mem_parents]
    simp [Phase.Owes]
  waiting_iff c hc := by simp [hc]
  outside c hc := ⟨rfl, hc⟩

/-! ## Jobs in the pool -/

theorem PoolOk.replace {js ks : List (ι × Stage ι)} {c : ι} {stage next : Stage ι}
    {phase : ι → Phase ι} (h : PoolOk (js ++ (c, stage) :: ks) phase) :
    PoolOk (js ++ (c, next) :: ks) (update phase c (.running next)) := by
  obtain ⟨hnodup, hmem⟩ := h
  refine ⟨by simpa using hnodup, ?_⟩
  rw [List.map_append, List.map_cons, List.nodup_append] at hnodup
  obtain ⟨-, hcons, hdisj⟩ := hnodup
  have hjs : ∀ st, (c, st) ∉ js := fun st hst =>
    hdisj c (List.mem_map.mpr ⟨_, hst, rfl⟩) c List.mem_cons_self rfl
  have hks : ∀ st, (c, st) ∉ ks := fun st hst =>
    (List.nodup_cons.mp hcons).1 (List.mem_map.mpr ⟨_, hst, rfl⟩)
  intro d st
  have hd := hmem d st
  simp only [List.mem_append, List.mem_cons] at hd ⊢
  by_cases hdc : d = c
  · subst hdc
    simp [hjs st, hks st, eq_comm]
  · simpa [hdc, update_of_ne hdc] using hd

theorem PoolOk.remove {js ks : List (ι × Stage ι)} {c : ι} {stage : Stage ι}
    {phase : ι → Phase ι} (h : PoolOk (js ++ (c, stage) :: ks) phase) :
    PoolOk (js ++ ks) (update phase c .finished) := by
  obtain ⟨hnodup, hmem⟩ := h
  rw [List.map_append, List.map_cons, List.nodup_append] at hnodup
  obtain ⟨hnjs, hcons, hdisj⟩ := hnodup
  obtain ⟨hcks, hnks⟩ := List.nodup_cons.mp hcons
  have hjs : ∀ st, (c, st) ∉ js := fun st hst =>
    hdisj c (List.mem_map.mpr ⟨_, hst, rfl⟩) c List.mem_cons_self rfl
  have hks : ∀ st, (c, st) ∉ ks := fun st hst =>
    hcks (List.mem_map.mpr ⟨_, hst, rfl⟩)
  refine ⟨?_, ?_⟩
  · rw [List.map_append, List.nodup_append]
    exact ⟨hnjs, hnks, fun a ha b hb => hdisj a ha b (List.mem_cons_of_mem _ hb)⟩
  · intro d st
    have hd := hmem d st
    simp only [List.mem_append, List.mem_cons] at hd ⊢
    by_cases hdc : d = c
    · subst hdc
      simp [hjs st, hks st]
    · simpa [hdc, update_of_ne hdc] using hd

theorem PoolOk.add {jobs : List (ι × Stage ι)} {c : ι} {phase : ι → Phase ι}
    (h : PoolOk jobs phase) (hc : phase c = .waiting) :
    PoolOk (jobs ++ [(c, .dispatched)]) (update phase c (.running .dispatched)) := by
  have hno : ∀ st, (c, st) ∉ jobs := by
    intro st hst
    rw [h.mem_iff, hc] at hst
    cases hst
  refine ⟨?_, ?_⟩
  · rw [List.map_append, List.nodup_append]
    refine ⟨h.nodup, List.nodup_singleton _, ?_⟩
    rintro a ha b hb rfl
    obtain ⟨⟨d, st⟩, hjob, rfl⟩ := List.mem_map.mp ha
    rw [List.map_cons, List.map_nil, List.mem_singleton] at hb
    cases hb
    exact hno st hjob
  · intro d st
    have hd := h.mem_iff d st
    simp only [List.mem_append, List.mem_singleton]
    by_cases hdc : d = c
    · subst hdc
      simp [hno st, eq_comm]
    · simpa [hdc, update_of_ne hdc] using hd

/-- A component changes its phase inside the pool, or leaves a phase that has no job. -/
theorem PoolOk.idle {jobs : List (ι × Stage ι)} {c : ι} {p : Phase ι} {phase : ι → Phase ι}
    (h : PoolOk jobs phase) (hc : ∀ st, phase c ≠ .running st) (hp : ∀ st, p ≠ .running st) :
    PoolOk jobs (update phase c p) := by
  refine ⟨h.nodup, ?_⟩
  intro d st
  by_cases hdc : d = c
  · subst hdc
    rw [h.mem_iff, update_self]
    exact iff_of_false (hc st) (hp st)
  · rw [h.mem_iff, update_of_ne hdc]

/-! ## Messages -/

theorem SentOk.keep {sent : List (Message ι)} {phase : ι → Phase ι} {c : ι} {p : Phase ι}
    (h : SentOk P sent phase) (howes : ∀ d, (c, d) ∈ P.edges → p.Owes d → (phase c).Owes d)
    (hf : p = .finished ↔ phase c = .finished) : SentOk P sent (update phase c p) where
  nodup := h.nodup
  not_first := h.not_first
  ready q d hm := by
    obtain ⟨hedge, hno⟩ := h.ready q d hm
    refine ⟨hedge, ?_⟩
    by_cases hq : q = c
    · subst hq
      rw [update_self]
      exact fun ho => hno (howes d hedge ho)
    · rwa [update_of_ne hq]
  finish_iff d := by
    by_cases hd : d = c
    · subst hd
      rw [update_self, h.finish_iff, hf]
    · rw [update_of_ne hd, h.finish_iff]

theorem SentOk.notify {sent : List (Message ι)} {phase : ι → Phase ι} {c d : ι} {ds : List ι}
    (h : SentOk P sent phase) (hc : phase c = .running (.notifying (d :: ds)))
    (hedge : (c, d) ∈ P.edges) (hd : d ∉ ds) :
    SentOk P (sent ++ [.start d (some c)]) (update phase c (.running (.notifying ds))) := by
  have hnew : .start d (some c) ∉ sent := by
    intro hm
    have hno := (h.ready c d hm).2
    rw [hc] at hno
    exact hno List.mem_cons_self
  have hkeep := h.keep (c := c) (p := .running (.notifying ds)) (by
    intro e _ ho
    rw [hc]
    exact List.mem_cons_of_mem _ ho) (by rw [hc]; constructor <;> intro he <;> cases he)
  refine ⟨?_, ?_, ?_, ?_⟩
  · rw [List.nodup_append]
    refine ⟨h.nodup, List.nodup_singleton _, ?_⟩
    rintro a ha b hb rfl
    rw [List.mem_singleton] at hb
    exact hnew (hb ▸ ha)
  · intro e he
    rw [List.mem_append, List.mem_singleton] at he
    rcases he with he | he
    · exact h.not_first e he
    · cases he
  · intro q e he
    rw [List.mem_append, List.mem_singleton] at he
    rcases he with he | he
    · exact hkeep.ready q e he
    · cases he
      rw [update_self]
      exact ⟨hedge, hd⟩
  · intro e
    rw [List.mem_append, List.mem_singleton, hkeep.finish_iff]
    exact or_iff_left (by intro he; cases he)

theorem SentOk.finish {sent : List (Message ι)} {phase : ι → Phase ι} {c : ι}
    (h : SentOk P sent phase) (hc : phase c = .running .finishing) :
    SentOk P (sent ++ [.finish c]) (update phase c .finished) := by
  have hnew : .finish c ∉ sent := by
    rw [h.finish_iff, hc]
    intro he
    cases he
  refine ⟨?_, ?_, ?_, ?_⟩
  · rw [List.nodup_append]
    refine ⟨h.nodup, List.nodup_singleton _, ?_⟩
    rintro a ha b hb rfl
    rw [List.mem_singleton] at hb
    exact hnew (hb ▸ ha)
  · intro e he
    rw [List.mem_append, List.mem_singleton] at he
    rcases he with he | he
    · exact h.not_first e he
    · cases he
  · intro q e he
    rw [List.mem_append, List.mem_singleton] at he
    rcases he with he | he
    · obtain ⟨hedge, hno⟩ := h.ready q e he
      refine ⟨hedge, ?_⟩
      by_cases hq : q = c
      · subst hq
        rw [update_self]
        exact id
      · rwa [update_of_ne hq]
    · cases he
  · intro e
    rw [List.mem_append, List.mem_singleton]
    by_cases he : e = c
    · subst he
      rw [update_self]
      exact iff_of_true (.inr rfl) rfl
    · rw [update_of_ne he, h.finish_iff]
      refine or_iff_left ?_
      intro heq
      cases heq
      exact he rfl

omit [DecidableEq ι] in
/-- The first of the sent messages is handled. -/
theorem SentOk.tail {m : Message ι} {sent : List (Message ι)} {phase : ι → Phase ι}
    (h : SentOk P (m :: sent) phase) (hm : ∀ c, m ≠ .finish c) : SentOk P sent phase where
  nodup := (List.nodup_cons.mp h.nodup).2
  not_first c hc := h.not_first c (List.mem_cons_of_mem _ hc)
  ready p c hc := h.ready p c (List.mem_cons_of_mem _ hc)
  finish_iff c := by
    rw [← h.finish_iff, List.mem_cons]
    exact (or_iff_right fun he => hm c he.symm).symm

theorem SentOk.tail_finish {c : ι} {sent : List (Message ι)} {phase : ι → Phase ι}
    (h : SentOk P (.finish c :: sent) phase) : SentOk P sent (update phase c .done) := by
  have hc : phase c = .finished := (h.finish_iff c).mp List.mem_cons_self
  have hnot := (List.nodup_cons.mp h.nodup).1
  refine ⟨(List.nodup_cons.mp h.nodup).2, ?_, ?_, ?_⟩
  · intro d hd
    exact h.not_first d (List.mem_cons_of_mem _ hd)
  · intro p d hd
    obtain ⟨hedge, hno⟩ := h.ready p d (List.mem_cons_of_mem _ hd)
    refine ⟨hedge, ?_⟩
    by_cases hp : p = c
    · subst hp
      rw [update_self]
      exact id
    · rwa [update_of_ne hp]
  · intro d
    by_cases hd : d = c
    · subst hd
      rw [update_self]
      exact iff_of_false hnot (by intro he; cases he)
    · rw [update_of_ne hd, ← h.finish_iff, List.mem_cons]
      refine (or_iff_right ?_).symm
      intro he
      cases he
      exact hd rfl

/-! ## Steps of a job -/

/-- A job moves on: only the cell of its component changes, and that component owes its children no
more than what it has sent. -/
theorem ScheduleInv.move {s t : State ι σ τ} {phase : ι → Phase ι} {first : List ι}
    {sent m : List (Message ι)} {c : ι} {stage : Stage ι} {p : Phase ι}
    (h : ScheduleInv P s phase first sent) (hc : phase c = .running stage) (hp : p ≠ .waiting)
    (hqueue : t.queue = s.queue ++ m) (hothers : ∀ d, d ≠ c → t.cells d = s.cells d)
    (hparents : (t.cells c).parents = (s.cells c).parents) (hcell : CellOk P c (t.cells c) p)
    (hpool : PoolOk t.jobs (update phase c p)) (hsent : SentOk P (sent ++ m) (update phase c p))
    (howes : ∀ d, (c, d) ∈ P.edges → (p.Owes d ∨ .start d (some c) ∈ sent ++ m ↔
      (phase c).Owes d ∨ .start d (some c) ∈ sent))
    (hnew : ∀ q d, q ≠ c → .start d (some q) ∉ m) :
    ScheduleInv P t (update phase c p) first (sent ++ m) := by
  have hmem : c ∈ P.components := by
    by_contra hno
    have hw := (h.outside c hno).1
    rw [hc] at hw
    cases hw
  have hsame : ∀ d, (t.cells d).parents = (s.cells d).parents := by
    intro d
    by_cases hd : d = c
    · rw [hd, hparents]
    · rw [hothers d hd]
  refine ⟨⟨?_, h.first_nodup, ?_, hpool, hsent, ?_, ?_⟩, ?_⟩
  · rw [hqueue, h.queue, List.append_assoc]
  · intro d
    by_cases hd : d = c
    · subst hd
      rwa [update_self]
    · rw [update_of_ne hd, hothers d hd]
      exact h.cell d
  · intro q d
    rw [hsame, h.parents_iff]
    refine and_congr_right fun hedge => ?_
    by_cases hq : q = c
    · subst hq
      rw [update_self]
      exact (howes d hedge).symm
    · rw [update_of_ne hq, List.mem_append]
      rw [or_iff_left (hnew q d hq)]
  · intro d hd
    have hdc : d ≠ c := fun he => hd (he ▸ hmem)
    rw [update_of_ne hdc]
    exact h.outside d hd
  · intro d hd
    rw [hsame, ← h.waiting_iff d hd]
    by_cases hdc : d = c
    · subst hdc
      rw [update_self, hc]
      exact iff_of_false hp (by intro he; cases he)
    · rw [update_of_ne hdc]

/-- A job moves on without a message. -/
theorem ScheduleInv.quiet {s : State ι σ τ} {phase : ι → Phase ι} {first : List ι}
    {sent : List (Message ι)} {js ks : List (ι × Stage ι)} {c : ι} {stage next : Stage ι}
    {f : Cell ι σ τ → Cell ι σ τ} (h : ScheduleInv P s phase first sent)
    (hjobs : s.jobs = js ++ (c, stage) :: ks)
    (hparents : (f (s.cells c)).parents = (s.cells c).parents)
    (hcell : CellOk P c (f (s.cells c)) (.running next))
    (howes : ∀ d, (c, d) ∈ P.edges →
      ((Phase.running next).Owes d ↔ (Phase.running stage).Owes d)) :
    ScheduleInv P { s.modify c f with jobs := js ++ (c, next) :: ks }
      (update phase c (.running next)) first sent := by
  have hpool := h.pool
  rw [hjobs] at hpool
  have hc : phase c = .running stage := (hpool.mem_iff c stage).mp (by simp)
  have hkeep : SentOk P sent (update phase c (.running next)) := by
    refine h.messages.keep ?_ ?_
    · intro d hedge ho
      rw [hc]
      exact (howes d hedge).mp ho
    · rw [hc]
      exact iff_of_false (by intro he; cases he) (by intro he; cases he)
  have hmove := h.move (t := { s.modify c f with jobs := js ++ (c, next) :: ks }) (m := [])
    (p := .running next) hc (by intro he; cases he) (List.append_nil _).symm
    (fun d hd => s.modify_of_ne hd f) (by rw [State.modify_self, hparents])
    (by rwa [State.modify_self]) hpool.replace (by rwa [List.append_nil]) ?_ (by simp)
  · rwa [List.append_nil] at hmove
  · intro d hedge
    rw [howes d hedge, hc, List.append_nil]

/-- **A job's step keeps the invariant.** -/
theorem ScheduleInv.job {s t : State ι σ τ} {phase : ι → Phase ι} {first : List ι}
    {sent : List (Message ι)} (hwf : P.Wf) (h : ScheduleInv P s phase first sent) {index : Nat}
    (hstep : P.step? s (.job index) = some t) :
    ∃ phase' sent', ScheduleInv P t phase' first sent' := by
  obtain ⟨c, stage, js, ks, r, hjobs, hr, rfl⟩ := Plan.job_cases hstep
  have hpool := h.pool
  rw [hjobs] at hpool
  have hc : phase c = .running stage := (hpool.mem_iff c stage).mp (by simp)
  have hcell := h.cell c
  rw [hc] at hcell
  cases stage with
  | dispatched =>
    cases hr
    refine ⟨_, _, h.quiet hjobs rfl ?_ (fun d _ => Iff.rfl)⟩
    exact {
      hcell with
      starts := by simp [hcell.starts, Phase.started]
      fixing := by intro he; cases he
      notifying := by intro ds he; cases he }
  | preparing =>
    rw [Plan.jobStep, Option.map_eq_some_iff] at hr
    obtain ⟨v, _, rfl⟩ := hr
    have hchildren : (s.cells c).children = P.children c := hcell.children rfl
    refine ⟨_, _, h.quiet hjobs rfl ?_ ?_⟩
    · exact {
        hcell with
        prepared := rfl
        fixing := by intro he; cases he
        notifying := by
          intro ds he
          cases he
          rw [hchildren]
          exact ⟨hwf.children_nodup c, fun d hd => Plan.mem_children.mp hd⟩ }
    · intro d hedge
      rw [hchildren]
      exact iff_of_true (Plan.mem_children.mpr hedge) trivial
  | notifying ds =>
    obtain ⟨hnodup, hedges⟩ := hcell.notifying ds rfl
    cases ds with
    | nil =>
      cases hr
      refine ⟨_, _, h.quiet hjobs rfl ?_ (fun d _ => iff_of_false id List.not_mem_nil)⟩
      exact {
        hcell with
        children := by intro he; cases he
        fixing := by intro he; cases he
        notifying := by intro ds he; cases he }
    | cons d ds =>
      cases hr
      obtain ⟨hd, hds⟩ := List.nodup_cons.mp hnodup
      have hedge := hedges d List.mem_cons_self
      refine ⟨_, _, h.move (m := [.start d (some c)]) (p := .running (.notifying ds)) hc
        (by intro he; cases he) rfl (fun e _ => rfl) rfl ?_ hpool.replace
        (h.messages.notify hc hedge hd) ?_ ?_⟩
      · exact {
          hcell with
          fixing := by intro he; cases he
          notifying := by
            intro es he
            cases he
            exact ⟨hds, fun e he => hedges e (List.mem_cons_of_mem _ he)⟩ }
      · intro e _
        rw [hc]
        simp only [Phase.Owes, List.mem_append, List.mem_cons, List.not_mem_nil, or_false,
          Message.start.injEq, and_true]
        tauto
      · intro q e hq he
        rw [List.mem_singleton] at he
        cases he
        exact hq rfl
  | translating =>
    rw [Plan.jobStep, Option.map_eq_some_iff] at hr
    obtain ⟨v, _, rfl⟩ := hr
    refine ⟨_, _, h.quiet hjobs rfl ?_ (fun d _ => Iff.rfl)⟩
    exact {
      hcell with
      groups := by intro he; cases he
      fixing := fun _ => ⟨v, rfl⟩
      notifying := by intro ds he; cases he }
  | fixing =>
    cases hr
    obtain ⟨groups, hgroups⟩ := hcell.fixing rfl
    refine ⟨_, _, h.quiet hjobs rfl ?_ (fun d _ => Iff.rfl)⟩
    exact {
      hcell with
      isFixed := rfl
      groups := fun _ => ⟨groups, by rw [hgroups]; rfl⟩
      fixing := by intro he; cases he
      notifying := by intro ds he; cases he }
  | finishing =>
    cases hr
    refine ⟨_, _, h.move (m := [.finish c]) (p := .finished) hc (by intro he; cases he) rfl
      (fun e _ => rfl) rfl ?_ hpool.remove (h.messages.finish hc) ?_ (by simp)⟩
    · exact {
        hcell with
        fixing := by intro he; cases he
        notifying := by intro ds he; cases he }
    · intro d _
      rw [hc]
      simp [Phase.Owes]

/-! ## Steps of the main thread -/

/-- A waiting component is dispatched. -/
theorem ScheduleBase.dispatch {s : State ι σ τ} {phase : ι → Phase ι} {first : List ι}
    {sent : List (Message ι)} (h : ScheduleBase P s phase first sent) {c : ι}
    (hc : phase c = .waiting) (hmem : c ∈ P.components) :
    ScheduleBase P { s with jobs := s.jobs ++ [(c, .dispatched)] }
      (update phase c (.running .dispatched)) first sent where
  queue := h.queue
  first_nodup := h.first_nodup
  cell d := by
    by_cases hd : d = c
    · subst hd
      have hcell := h.cell d
      rw [hc] at hcell
      rw [update_self]
      exact {
        hcell with
        fixing := by intro he; cases he
        notifying := by intro ds he; cases he }
    · rw [update_of_ne hd]
      exact h.cell d
  pool := h.pool.add hc
  messages := h.messages.keep (by rw [hc]; exact fun _ _ _ => trivial)
    (by rw [hc]; exact iff_of_false (by intro he; cases he) (by intro he; cases he))
  parents_iff p d := by
    rw [h.parents_iff]
    by_cases hp : p = c
    · subst hp
      rw [update_self, hc]
      rfl
    · rw [update_of_ne hp]
  outside d hd := by
    have hdc : d ≠ c := fun he => hd (he ▸ hmem)
    rw [update_of_ne hdc]
    exact h.outside d hd

/-- A component that has heard its message is dispatched if nothing is left to wait for. -/
theorem ScheduleBase.settle {s : State ι σ τ} {phase : ι → Phase ι} {first : List ι}
    {sent : List (Message ι)} (h : ScheduleBase P s phase first sent) {c : ι}
    (hc : phase c = .waiting) (hmem : c ∈ P.components) (hfirst : c ∉ first)
    (hothers : ∀ d ∈ P.components, d ≠ c →
      (phase d = .waiting ↔ d ∈ first ∨ (s.cells d).parents ≠ [])) :
    ((s.cells c).parents = [] → ScheduleInv P { s with jobs := s.jobs ++ [(c, .dispatched)] }
      (update phase c (.running .dispatched)) first sent) ∧
    ((s.cells c).parents ≠ [] → ScheduleInv P s phase first sent) := by
  constructor
  · intro hnone
    refine ⟨h.dispatch hc hmem, ?_⟩
    intro d hd
    by_cases hdc : d = c
    · subst hdc
      rw [update_self]
      exact iff_of_false (by intro he; cases he) (fun ho => ho.elim hfirst fun hne => hne hnone)
    · rw [update_of_ne hdc]
      exact hothers d hd hdc
  · intro hsome
    refine ⟨h, ?_⟩
    intro d hd
    by_cases hdc : d = c
    · subst hdc
      exact iff_of_true hc (.inr hsome)
    · exact hothers d hd hdc

/-- The first message of a component is handled. -/
theorem ScheduleInv.hear_first {s : State ι σ τ} {phase : ι → Phase ι} {first : List ι}
    {sent queue : List (Message ι)} {c : ι} (h : ScheduleInv P s phase (c :: first) sent)
    (hqueue : s.queue = .start c none :: queue) :
    ScheduleBase P (State.modify { s with queue } c (Plan.received none)) phase first sent := by
  have hq := h.queue
  rw [hqueue, List.map_cons, List.cons_append, List.cons.injEq] at hq
  have hcells : ∀ d, (State.modify { s with queue } c (Plan.received none)).cells d =
      s.cells d := by
    intro d
    by_cases hd : d = c
    · rw [hd, State.modify_self]
      rfl
    · exact State.modify_of_ne _ hd _
  refine ⟨hq.2, (List.nodup_cons.mp h.first_nodup).2, ?_, h.pool, h.messages, ?_, ?_⟩
  · intro d
    rw [hcells]
    exact h.cell d
  · intro p d
    rw [hcells]
    exact h.parents_iff p d
  · intro d hd
    obtain ⟨hw, hno⟩ := h.outside d hd
    exact ⟨hw, fun hm => hno (List.mem_cons_of_mem _ hm)⟩

/-- A component hears from a parent. -/
theorem ScheduleInv.hear_ready {s : State ι σ τ} {phase : ι → Phase ι} {sent : List (Message ι)}
    {c r : ι} (h : ScheduleInv P s phase [] (.start c (some r) :: sent)) :
    ScheduleBase P (State.modify { s with queue := sent } c (Plan.received (some r))) phase []
      sent := by
  obtain ⟨hedge, hno⟩ := h.messages.ready r c List.mem_cons_self
  have hnot := (List.nodup_cons.mp h.messages.nodup).1
  refine ⟨rfl, List.nodup_nil, ?_, h.pool, h.messages.tail (by intro d he; cases he), ?_, h.outside⟩
  · intro d
    by_cases hd : d = c
    · subst hd
      rw [State.modify_self]
      exact { h.cell d with }
    · rw [State.modify_of_ne _ hd]
      exact h.cell d
  · intro p d
    by_cases hd : d = c
    · subst hd
      rw [State.modify_self]
      simp only [Plan.received, List.mem_filter, decide_eq_true_eq, h.parents_iff p d,
        List.mem_cons, Message.start.injEq, true_and, Option.some.injEq]
      by_cases hp : p = r
      · subst hp
        simp [hno, hnot]
      · simp [hp]
    · rw [State.modify_of_ne _ hd, h.parents_iff p d, List.mem_cons]
      refine and_congr_right fun _ => or_congr_right (or_iff_right ?_)
      intro he
      cases he
      exact hd rfl

/-- The finish message of a component is handled. -/
theorem ScheduleInv.hear_finish {s : State ι σ τ} {phase : ι → Phase ι} {sent : List (Message ι)}
    {c : ι} (h : ScheduleInv P s phase [] (.finish c :: sent)) :
    ScheduleInv P (State.modify { s with queue := sent } c fun cell => { cell with isDone := true })
      (update phase c .done) [] sent := by
  have hc : phase c = .finished := (h.messages.finish_iff c).mp List.mem_cons_self
  have hparents : ∀ d, ((State.modify { s with queue := sent } c fun cell =>
      { cell with isDone := true }).cells d).parents = (s.cells d).parents := by
    intro d
    by_cases hd : d = c
    · rw [hd, State.modify_self]
    · rw [State.modify_of_ne _ hd]
  refine ⟨⟨rfl, List.nodup_nil, ?_, ?_, h.messages.tail_finish, ?_, ?_⟩, ?_⟩
  · intro d
    by_cases hd : d = c
    · subst hd
      have hcell := h.cell d
      rw [hc] at hcell
      rw [State.modify_self, update_self]
      exact {
        hcell with
        fixing := by intro he; cases he
        isDone := rfl
        notifying := by intro ds he; cases he }
    · rw [State.modify_of_ne _ hd, update_of_ne hd]
      exact h.cell d
  · exact h.pool.idle (by rw [hc]; intro st he; cases he) (by intro st he; cases he)
  · intro p d
    rw [hparents, h.parents_iff, List.mem_cons]
    refine and_congr_right fun _ => ?_
    have hmsg : ¬ .start d (some p) = Message.finish c := by
      intro he
      cases he
    rw [or_iff_right hmsg]
    by_cases hp : p = c
    · subst hp
      rw [update_self, hc]
      rfl
    · rw [update_of_ne hp]
  · intro d hd
    have hdc : d ≠ c := by
      intro he
      have hw := (h.outside d hd).1
      rw [he, hc] at hw
      cases hw
    rw [update_of_ne hdc]
    exact h.outside d hd
  · intro d hd
    rw [hparents, ← h.waiting_iff d hd]
    by_cases hdc : d = c
    · subst hdc
      rw [update_self, hc]
      exact iff_of_false (by intro he; cases he) (by intro he; cases he)
    · rw [update_of_ne hdc]

/-- **A step of the main thread keeps the invariant.** -/
theorem ScheduleInv.main {s t : State ι σ τ} {phase : ι → Phase ι} {first : List ι}
    {sent : List (Message ι)} (hwf : P.Wf) (h : ScheduleInv P s phase first sent)
    (hstep : Plan.mainStep s = some t) :
    ∃ phase' first' sent', ScheduleInv P t phase' first' sent' := by
  rcases Plan.mainStep_cases hstep with ⟨c, queue, hqueue, rfl⟩ | ⟨c, ready, queue, hqueue, ht⟩
  · cases first with
    | nil =>
      have hsent : sent = .finish c :: queue := by rw [← hqueue, h.queue]; rfl
      subst hsent
      exact ⟨_, _, _, h.hear_finish⟩
    | cons d first =>
      have hq := h.queue
      rw [hqueue] at hq
      cases hq
  · have hsettle : ∀ {first' sent'}, ScheduleBase P
        (State.modify { s with queue } c (Plan.received ready)) phase first' sent' →
        phase c = .waiting → c ∈ P.components → c ∉ first' →
        (∀ d, d ≠ c → (d ∈ first' ↔ d ∈ first)) →
        ∃ phase' first' sent', ScheduleInv P t phase' first' sent' := by
      intro first' sent' hbase hc hmem hno hsame
      obtain ⟨hdispatch, hwait⟩ := hbase.settle hc hmem hno (by
        intro d hd hdc
        rw [State.modify_of_ne _ hdc, hsame d hdc]
        exact h.waiting_iff d hd)
      rw [State.modify_self] at hdispatch hwait
      rcases ht with ⟨hnone, rfl⟩ | ⟨hsome, rfl⟩
      · exact ⟨_, _, _, hdispatch hnone⟩
      · exact ⟨_, _, _, hwait hsome⟩
    cases first with
    | nil =>
      have hsent : sent = .start c ready :: queue := by rw [← hqueue, h.queue]; rfl
      subst hsent
      cases ready with
      | none => exact absurd List.mem_cons_self (h.messages.not_first c)
      | some r =>
        -- the parent that reports is still among the remaining ones, so the component waits
        obtain ⟨hedge, _⟩ := h.messages.ready r c List.mem_cons_self
        have hmem := (hwf.edge_mem r c hedge).2
        have hparent : r ∈ (s.cells c).parents :=
          (h.parents_iff r c).mpr ⟨hedge, .inr List.mem_cons_self⟩
        have hc := (h.waiting_iff c hmem).mpr (.inr (List.ne_nil_of_mem hparent))
        exact hsettle h.hear_ready hc hmem List.not_mem_nil fun _ _ => Iff.rfl
    | cons d first =>
      have hq := h.queue
      rw [hqueue, List.map_cons, List.cons_append, List.cons.injEq] at hq
      obtain ⟨hhead, _⟩ := hq
      cases hhead
      have hmem : c ∈ P.components := by
        by_contra hno
        exact (h.outside c hno).2 List.mem_cons_self
      have hc := (h.waiting_iff c hmem).mpr (.inl List.mem_cons_self)
      refine hsettle (h.hear_first hqueue) hc hmem (List.nodup_cons.mp h.first_nodup).1 ?_
      intro d hd
      rw [List.mem_cons]
      exact (or_iff_right hd).symm

/-- **Every step keeps the invariant.** -/
theorem ScheduleInv.step {s t : State ι σ τ} {phase : ι → Phase ι} {first : List ι}
    {sent : List (Message ι)} (hwf : P.Wf) (h : ScheduleInv P s phase first sent)
    (hstep : P.Step s t) : ∃ phase' first' sent', ScheduleInv P t phase' first' sent' := by
  obtain ⟨choice, hstep⟩ := hstep
  cases choice with
  | main => exact h.main hwf hstep
  | job index =>
    obtain ⟨phase', sent', h'⟩ := h.job hwf hstep
    exact ⟨phase', first, sent', h'⟩

/-- **The invariant holds in every reachable state.** -/
theorem Plan.Reachable.inv {s : State ι σ τ} (hwf : P.Wf) (hs : P.Reachable s) :
    ∃ phase first sent, ScheduleInv P s phase first sent := by
  induction hs with
  | refl => exact ⟨_, _, _, ScheduleInv.start hwf⟩
  | tail _ hstep ih =>
    obtain ⟨phase, first, sent, h⟩ := ih
    exact h.step hwf hstep

end Invariant

end Mocha.Lib
