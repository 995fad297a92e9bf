import Mathlib.Data.List.Nodup
import Mathlib.Logic.Function.Basic
import Mathlib.Logic.Relation

/-!
# Work in dependency order, over a main queue and a pool of jobs

A `Plan` is a list of components with edges (parent, child) between them. Each component is to be
prepared once all of its parents are, and then translated. The work is spread over a FIFO queue of
messages, handled one at a time on the main thread, and a pool of jobs that run concurrently:

* a `start` message for a component removes the parent it names, if it names one, from the
  component's remaining parents, and dispatches a job when none are left;
* a job runs `prepare`, then sends a `start` message to each child, forgets its children, runs
  `translate`, applies `fix` to the result, and sends a `finish` message, which marks the component
  as done.

Every component is sent one `start` message without a parent at the beginning. `step?` makes the next
step of the main thread or of one job of the pool; a `Run` is any order of such steps. `prepare`
and `translate` see the states of all components at that moment, and may fail to return.

The pool is a list: nothing in the model keeps a component from being dispatched twice. What the
scheduler guarantees is proved in `ScheduleInvariant` and `ScheduleResult`.
-/

namespace Mocha.Lib

/-- A message of the main queue. -/
inductive Message (ι : Type) where
  | start (component : ι) (ready : Option ι)
  | finish (component : ι)
  deriving DecidableEq

/-- What a job does next. -/
inductive Stage (ι : Type) where
  /-- begin `prepare` -/
  | dispatched
  /-- return from `prepare` -/
  | preparing
  /-- notify the children that are left, then forget them -/
  | notifying (children : List ι)
  /-- run `translate` -/
  | translating
  /-- apply `fix` -/
  | fixing
  /-- send `finish` -/
  | finishing
  deriving DecidableEq

/-- What is stored for one component. The last three fields record what has happened to it. -/
structure Cell (ι σ τ : Type) where
  parents : List ι
  children : List ι
  state : σ
  groups : Option τ
  isDone : Bool
  /-- how often `prepare` was begun -/
  starts : Nat
  /-- whether `prepare` has returned -/
  prepared : Bool
  /-- whether `fix` was applied to the groups -/
  isFixed : Bool

/-- A state of the whole system. -/
structure State (ι σ τ : Type) where
  queue : List (Message ι)
  jobs : List (ι × Stage ι)
  cells : ι → Cell ι σ τ

/-- Components, their dependencies and what is computed for each. -/
structure Plan (ι σ τ : Type) where
  components : List ι
  edges : List (ι × ι)
  fresh : σ
  prepare : (ι → σ) → ι → Option σ
  translate : (ι → σ) → ι → Option τ
  fix : ι → τ → τ

namespace State

variable {ι σ τ : Type} [DecidableEq ι]

/-- Change the cell of one component. -/
def modify (s : State ι σ τ) (c : ι) (f : Cell ι σ τ → Cell ι σ τ) : State ι σ τ :=
  { s with cells := Function.update s.cells c (f (s.cells c)) }

omit [DecidableEq ι] in
/-- Send a message. -/
def send (s : State ι σ τ) (m : Message ι) : State ι σ τ := { s with queue := s.queue ++ [m] }

omit [DecidableEq ι] in
/-- The states of all components. -/
def states (s : State ι σ τ) (c : ι) : σ := (s.cells c).state

omit [DecidableEq ι] in
/-- Neither a message nor a job is left. -/
def Quiescent (s : State ι σ τ) : Prop := s.queue = [] ∧ s.jobs = []

@[simp] theorem modify_queue (s : State ι σ τ) (c : ι) (f : Cell ι σ τ → Cell ι σ τ) :
    (s.modify c f).queue = s.queue := rfl

@[simp] theorem modify_jobs (s : State ι σ τ) (c : ι) (f : Cell ι σ τ → Cell ι σ τ) :
    (s.modify c f).jobs = s.jobs := rfl

@[simp] theorem modify_self (s : State ι σ τ) (c : ι) (f : Cell ι σ τ → Cell ι σ τ) :
    (s.modify c f).cells c = f (s.cells c) := Function.update_self ..

theorem modify_of_ne (s : State ι σ τ) {c d : ι} (h : d ≠ c) (f : Cell ι σ τ → Cell ι σ τ) :
    (s.modify c f).cells d = s.cells d := Function.update_of_ne h ..

end State

namespace Plan

variable {ι σ τ : Type} [DecidableEq ι] (P : Plan ι σ τ)

/-- The components registered as parents of `c`. -/
def parents (c : ι) : List ι := (P.edges.filter fun e => e.2 = c).map Prod.fst

/-- The components registered as children of `c`. -/
def children (c : ι) : List ι := (P.edges.filter fun e => e.1 = c).map Prod.snd

/-- The state at the beginning. -/
def start : State ι σ τ where
  queue := P.components.map fun c => .start c none
  jobs := []
  cells c := {
    parents := P.parents c
    children := P.children c
    state := P.fresh
    groups := none
    isDone := false
    starts := 0
    prepared := false
    isFixed := false }

/-- Drop the parent a message names. -/
def received (ready : Option ι) (cell : Cell ι σ τ) : Cell ι σ τ :=
  match ready with
  | some r => { cell with parents := cell.parents.filter fun p => p ≠ r }
  | none => cell

/-- The main thread handles the next message. -/
def mainStep (s : State ι σ τ) : Option (State ι σ τ) :=
  match s.queue with
  | [] => none
  | .finish c :: queue =>
    some (State.modify { s with queue } c fun cell => { cell with isDone := true })
  | .start c ready :: queue =>
    let t := State.modify { s with queue } c (received ready)
    if (t.cells c).parents = [] then some { t with jobs := t.jobs ++ [(c, .dispatched)] }
    else some t

/-- A job of `c` does its next piece of work; the second result is what it does after that. -/
def jobStep (s : State ι σ τ) (c : ι) : Stage ι → Option (State ι σ τ × Option (Stage ι))
  | .dispatched =>
    some (s.modify c fun cell => { cell with starts := cell.starts + 1 }, some .preparing)
  | .preparing => (P.prepare s.states c).map fun v =>
    (s.modify c fun cell => { cell with state := v, prepared := true },
      some (.notifying (s.cells c).children))
  | .notifying (d :: ds) => some (s.send (.start d (some c)), some (.notifying ds))
  | .notifying [] => some (s.modify c fun cell => { cell with children := [] }, some .translating)
  | .translating => (P.translate s.states c).map fun t =>
    (s.modify c fun cell => { cell with groups := some t }, some .fixing)
  | .fixing =>
    some (s.modify c fun cell =>
      { cell with groups := cell.groups.map (P.fix c), isFixed := true }, some .finishing)
  | .finishing => some (s.send (.finish c), none)

/-- Who moves next: the main thread, or a job of the pool. -/
inductive Choice where
  | main
  | job (index : Nat)

/-- The chosen step, if it can be made. -/
def step? (s : State ι σ τ) : Choice → Option (State ι σ τ)
  | .main => mainStep s
  | .job index =>
    match s.jobs[index]? with
    | none => none
    | some (c, stage) => (P.jobStep s c stage).map fun r => { r.1 with
        jobs := match r.2 with
          | some next => s.jobs.set index (c, next)
          | none => s.jobs.eraseIdx index }

/-- One step of anyone. -/
def Step (s t : State ι σ τ) : Prop := ∃ choice, P.step? s choice = some t

/-- The states that some order of steps leads to. -/
def Reachable (s : State ι σ τ) : Prop := Relation.ReflTransGen P.Step P.start s

/-- The states after each of the chosen steps. -/
def run (s : State ι σ τ) : List Choice → Option (State ι σ τ)
  | [] => some s
  | choice :: rest => (P.step? s choice).bind fun t => run t rest

theorem reachable_of_run {s t : State ι σ τ} (hs : P.Reachable s) :
    ∀ {choices : List Choice}, P.run s choices = some t → P.Reachable t := by
  intro choices h
  induction choices generalizing s with
  | nil =>
    cases h
    exact hs
  | cons choice rest ih =>
    rw [run, Option.bind_eq_some_iff] at h
    obtain ⟨u, hu, h⟩ := h
    exact ih (hs.tail ⟨choice, hu⟩) h

/-! ## What a step does -/

variable {P}

/-- The main thread's steps. -/
theorem mainStep_cases {s t : State ι σ τ} (h : mainStep s = some t) :
    (∃ c queue, s.queue = .finish c :: queue ∧
      t = State.modify { s with queue } c fun cell => { cell with isDone := true }) ∨
    ∃ c ready queue, s.queue = .start c ready :: queue ∧
      ((received ready (s.cells c)).parents = [] ∧
        t = { State.modify { s with queue } c (received ready) with
          jobs := s.jobs ++ [(c, .dispatched)] } ∨
      (received ready (s.cells c)).parents ≠ [] ∧
        t = State.modify { s with queue } c (received ready)) := by
  unfold mainStep at h
  split at h
  · cases h
  · rename_i c queue hq
    cases h
    exact .inl ⟨c, queue, hq, rfl⟩
  · rename_i c ready queue hq
    refine .inr ⟨c, ready, queue, hq, ?_⟩
    simp only [State.modify_self] at h
    by_cases hparents : (received ready (s.cells c)).parents = []
    · rw [if_pos hparents] at h
      cases h
      exact .inl ⟨hparents, rfl⟩
    · rw [if_neg hparents] at h
      cases h
      exact .inr ⟨hparents, rfl⟩

/-- A job changes no cell but that of its own component. -/
theorem jobStep_frame {s : State ι σ τ} {c d : ι} {stage : Stage ι} {r : State ι σ τ × Option (Stage ι)}
    (h : P.jobStep s c stage = some r) (hd : d ≠ c) : r.1.cells d = s.cells d := by
  cases stage with
  | dispatched =>
    cases h
    simp only [State.modify_of_ne s hd]
  | preparing =>
    rw [jobStep, Option.map_eq_some_iff] at h
    obtain ⟨v, -, rfl⟩ := h
    simp only [State.modify_of_ne s hd]
  | notifying ds =>
    cases ds with
    | nil =>
      cases h
      simp only [State.modify_of_ne s hd]
    | cons e es =>
      cases h
      rfl
  | translating =>
    rw [jobStep, Option.map_eq_some_iff] at h
    obtain ⟨v, -, rfl⟩ := h
    simp only [State.modify_of_ne s hd]
  | fixing =>
    cases h
    simp only [State.modify_of_ne s hd]
  | finishing =>
    cases h
    rfl

/-- A job's step replaces the job by what it does next, or removes it. -/
theorem job_cases {s t : State ι σ τ} {index : Nat} (h : P.step? s (.job index) = some t) :
    ∃ c stage js ks r, s.jobs = js ++ (c, stage) :: ks ∧ P.jobStep s c stage = some r ∧
      t = { r.1 with jobs := js ++ ((r.2.toList.map fun next => (c, next)) ++ ks) } := by
  unfold step? at h
  cases hj : s.jobs[index]? with
  | none =>
    simp only [hj] at h
    cases h
  | some job =>
    obtain ⟨c, stage⟩ := job
    simp only [hj, Option.map_eq_some_iff] at h
    obtain ⟨r, hr, rfl⟩ := h
    obtain ⟨hlt, hget⟩ := List.getElem?_eq_some_iff.mp hj
    refine ⟨c, stage, s.jobs.take index, s.jobs.drop (index + 1), r, ?_, hr, ?_⟩
    · rw [← hget, ← List.drop_eq_getElem_cons hlt, List.take_append_drop]
    · cases r.2 with
      | none => simp [List.eraseIdx_eq_take_drop_succ]
      | some next => simp [List.set_eq_take_append_cons_drop, hlt]

end Plan

end Mocha.Lib
