import Mocha.Lib.Cycle
import Mocha.Lib.Loop

/-!
# Recursive walks that may not end

A `Descent` gives the children of a state in order, or fails. `run fuel s` walks `s` and then its
children, one after the other and down to the depth `fuel`; the first failure ends it. `Complete s`
says that everything below `s` is there, and `Enters s t` that the walk of `s` comes to its child `t`:
all that is below the children before `t` is there.

* **`finishes_iff`**: over finitely many states the walk ends iff it never comes back to a state that
  it is below.
* **`nodup_iff`**: a walk that returns visits no state twice iff no state is reached along two paths.
* **`exists_run_iff`**: a walk returns iff every state on a path gives its children and no path is as long
  as the fuel.
* **`run_simulates`**: walks whose children correspond give corresponding results.
* **`result_run`**: a recursive function whose stack is bounded is such a walk.
-/

namespace Mocha.Lib

/-- The first element that does not satisfy `P`. -/
theorem exists_first {α : Type} {P : α → Prop} : ∀ {as : List α}, (¬ ∀ a ∈ as, P a) →
    ∃ pre b post, as = pre ++ b :: post ∧ (∀ a ∈ pre, P a) ∧ ¬ P b
  | [], h => absurd nofun h
  | a :: as, h => by
    by_cases ha : P a
    · have hrest : ¬ ∀ b ∈ as, P b := by
        intro hall
        refine h fun b hb => ?_
        rcases List.mem_cons.mp hb with rfl | hb
        · exact ha
        · exact hall b hb
      obtain ⟨pre, b, post, rfl, hpre, hb⟩ := exists_first hrest
      refine ⟨a :: pre, b, post, rfl, fun c hc => ?_, hb⟩
      rcases List.mem_cons.mp hc with rfl | hc
      · exact ha
      · exact hpre c hc
    · exact ⟨[], a, as, rfl, nofun, ha⟩

section Related

variable {α β : Type} {R : α → β → Prop} {as : List α} {bs : List β}

/-- Names without repetition name different things iff nothing has two names. -/
theorem forall₂_nodup_iff (h : List.Forall₂ R as bs) (hunique : ∀ {a b c}, R a b → R a c → b = c)
    (hnodup : as.Nodup) : bs.Nodup ↔ ∀ a ∈ as, ∀ a' ∈ as, ∀ b, R a b → R a' b → a = a' := by
  induction h with
  | nil => exact iff_of_true .nil nofun
  | @cons a b as bs hab hrest ih =>
    obtain ⟨ha, hnodup⟩ := List.nodup_cons.mp hnodup
    rw [List.nodup_cons, ih hnodup]
    constructor
    · rintro ⟨hb, hall⟩
      -- a second name of `b` would stand for an element of `bs`
      have honly : ∀ a' ∈ as, ¬ R a' b := by
        intro a' ha' hr
        obtain ⟨c, hc, hr'⟩ := forall₂_exists_right hrest ha'
        exact hb (hunique hr hr' ▸ hc)
      intro x hx y hy c hxc hyc
      rcases List.mem_cons.mp hx with rfl | hx' <;> rcases List.mem_cons.mp hy with rfl | hy'
      · rfl
      · exact absurd (hunique hxc hab ▸ hyc) (honly y hy')
      · exact absurd (hunique hyc hab ▸ hxc) (honly x hx')
      · exact hall x hx' y hy' c hxc hyc
    · intro hall
      refine ⟨?_, fun x hx y hy => hall x (List.mem_cons_of_mem a hx) y (List.mem_cons_of_mem a hy)⟩
      intro hb
      obtain ⟨a', ha', hr⟩ := forall₂_exists_left hrest hb
      exact ha (hall a List.mem_cons_self a' (List.mem_cons_of_mem a ha') b hab hr ▸ ha')

end Related

/-- A state and its children. -/
structure Descent (ε σ : Type) where
  children : σ → Except ε (List σ)

namespace Descent

variable {ε σ : Type}

/-- Walks one after the other, up to the first that fails or is cut off. -/
def runAll (walk : σ → Option (Except ε (List σ))) : List σ → Option (Except ε (List σ))
  | [] => some (.ok [])
  | s :: ss =>
    match walk s with
    | none => none
    | some (.error e) => some (.error e)
    | some (.ok as) => (runAll walk ss).map fun r => r.map (as ++ ·)

/-- The states of the walk from `s` in the order they are met, `none` if it goes deeper than `fuel`. -/
def run (D : Descent ε σ) : Nat → σ → Option (Except ε (List σ))
  | 0, _ => none
  | fuel + 1, s =>
    match D.children s with
    | .error e => some (.error e)
    | .ok ts => (runAll (D.run fuel) ts).map fun r => r.map (s :: ·)

variable {D : Descent ε σ} {s t : σ} {ts : List σ} {fuel : Nat}

/-- The walk is over at some depth. -/
def Finishes (D : Descent ε σ) (s : σ) : Prop := ∃ fuel r, D.run fuel s = some r

/-- The walk is over and has not failed. -/
def Returns (D : Descent ε σ) (s : σ) : Prop := ∃ fuel as, D.run fuel s = some (.ok as)

/-- Below `s` there are finitely many states, and all of them give their children. -/
inductive Complete (D : Descent ε σ) : σ → Prop
  | node {s : σ} {ts : List σ} (hs : D.children s = .ok ts) (hts : ∀ t ∈ ts, Complete D t) :
      Complete D s

/-- The walk of `s` comes to its child `t`. -/
def Enters (D : Descent ε σ) (s t : σ) : Prop :=
  ∃ pre post, D.children s = .ok (pre ++ t :: post) ∧ ∀ u ∈ pre, D.Complete u

/-! ## One after the other -/

section RunAll

variable {walk : σ → Option (Except ε (List σ))}

theorem runAll_none (h : walk s = none) : runAll walk (s :: ts) = none := by
  rw [runAll, h]

theorem runAll_error {e : ε} (h : walk s = some (.error e)) :
    runAll walk (s :: ts) = some (.error e) := by
  rw [runAll, h]

theorem runAll_ok {as : List σ} (h : walk s = some (.ok as)) :
    runAll walk (s :: ts) = (runAll walk ts).map fun r => r.map (as ++ ·) := by
  rw [runAll, h]

/-- All of them return. -/
theorem runAll_eq_ok {as : List σ} : runAll walk ts = some (.ok as) ↔
    ∃ ass, List.Forall₂ (fun t bs => walk t = some (.ok bs)) ts ass ∧ as = ass.flatten := by
  induction ts generalizing as with
  | nil =>
    constructor
    · intro h
      cases h
      exact ⟨[], .nil, rfl⟩
    · rintro ⟨ass, hall, rfl⟩
      cases hall
      rfl
  | cons s ts ih =>
    constructor
    · intro h
      cases hs : walk s with
      | none =>
        rw [runAll_none hs] at h
        cases h
      | some x =>
        cases x with
        | error e =>
          rw [runAll_error hs] at h
          cases h
        | ok bs =>
          rw [runAll_ok hs, Option.map_eq_some_iff] at h
          obtain ⟨x, hx, h⟩ := h
          cases x with
          | error e => cases h
          | ok cs =>
            cases h
            obtain ⟨ass, hall, rfl⟩ := ih.mp hx
            exact ⟨bs :: ass, .cons hs hall, rfl⟩
    · rintro ⟨ass, hall, rfl⟩
      cases hall with
      | cons hs hall =>
        rw [runAll_ok hs, ih.mpr ⟨_, hall, rfl⟩]
        rfl

/-- What stands behind walks that return decides. -/
theorem runAll_append {pre : List σ} (hpre : ∀ u ∈ pre, ∃ bs, walk u = some (.ok bs)) :
    ∃ as, runAll walk (pre ++ ts) = (runAll walk ts).map fun r => r.map (as ++ ·) := by
  induction pre with
  | nil =>
    refine ⟨[], ?_⟩
    rw [List.nil_append]
    cases runAll walk ts with
    | none => rfl
    | some r => cases r <;> rfl
  | cons u pre ih =>
    obtain ⟨bs, hu⟩ := hpre u List.mem_cons_self
    obtain ⟨as, has⟩ := ih fun v hv => hpre v (List.mem_cons_of_mem u hv)
    refine ⟨bs ++ as, ?_⟩
    rw [List.cons_append, runAll_ok hu, has, Option.map_map]
    cases runAll walk ts with
    | none => rfl
    | some r =>
      cases r with
      | error e => rfl
      | ok cs => exact congrArg (fun l => some (Except.ok l)) (List.append_assoc bs as cs).symm

/-- A walk that is cut off cuts off the whole, if those before it do not fail. -/
theorem runAll_cut {pre post : List σ} (hpre : ∀ u ∈ pre, ∀ e, walk u ≠ some (.error e))
    (ht : walk t = none) : runAll walk (pre ++ t :: post) = none := by
  induction pre with
  | nil => exact runAll_none ht
  | cons u pre ih =>
    have ih := ih fun v hv => hpre v (List.mem_cons_of_mem u hv)
    rw [List.cons_append]
    cases hu : walk u with
    | none => exact runAll_none hu
    | some x =>
      cases x with
      | error e => exact absurd hu (hpre u List.mem_cons_self e)
      | ok bs => rw [runAll_ok hu, ih, Option.map_none]

/-- Walks that are over stay as they are with more fuel. -/
theorem runAll_mono {walk' : σ → Option (Except ε (List σ))}
    (hle : ∀ s r, walk s = some r → walk' s = some r) {r : Except ε (List σ)}
    (h : runAll walk ts = some r) : runAll walk' ts = some r := by
  induction ts generalizing r with
  | nil => exact h
  | cons s ts ih =>
    cases hs : walk s with
    | none =>
      rw [runAll_none hs] at h
      cases h
    | some x =>
      have hs' := hle s x hs
      cases x with
      | error e =>
        rw [runAll_error hs] at h
        rw [runAll_error hs', h]
      | ok as =>
        rw [runAll_ok hs, Option.map_eq_some_iff] at h
        obtain ⟨x, hx, rfl⟩ := h
        rw [runAll_ok hs', ih hx, Option.map_some]

/-- One after the other, walks fail as one of them does. -/
theorem runAll_ne_error {e : ε} (h : ∀ s, walk s ≠ some (.error e)) (ts : List σ) :
    runAll walk ts ≠ some (.error e) := by
  induction ts with
  | nil => nofun
  | cons s ts ih =>
    cases hs : walk s with
    | none =>
      rw [runAll_none hs]
      nofun
    | some x =>
      cases x with
      | error e' =>
        rw [runAll_error hs, ← hs]
        exact h s
      | ok as =>
        rw [runAll_ok hs]
        generalize runAll walk ts = r at ih ⊢
        cases r with
        | none => nofun
        | some r =>
          cases r with
          | error e' =>
            intro he
            cases he
            exact ih rfl
          | ok bs => nofun

end RunAll

/-! ## More fuel -/

theorem run_error {e : ε} (h : D.children s = .error e) : D.run (fuel + 1) s = some (.error e) := by
  rw [run, h]

theorem run_children (h : D.children s = .ok ts) :
    D.run (fuel + 1) s = (runAll (D.run fuel) ts).map fun r => r.map (s :: ·) := by
  rw [run, h]

theorem run_succ {r : Except ε (List σ)} (h : D.run fuel s = some r) :
    D.run (fuel + 1) s = some r := by
  induction fuel generalizing s r with
  | zero => cases h
  | succ fuel ih =>
    cases hs : D.children s with
    | error e =>
      rw [run_error hs] at h ⊢
      exact h
    | ok ts =>
      rw [run_children hs, Option.map_eq_some_iff] at h
      obtain ⟨x, hx, rfl⟩ := h
      rw [run_children hs, runAll_mono (fun s r => ih) hx, Option.map_some]

/-- More fuel does not change the result. -/
theorem run_mono {r : Except ε (List σ)} {more : Nat} (h : D.run fuel s = some r)
    (hle : fuel ≤ more) : D.run more s = some r := by
  induction hle with
  | refl => exact h
  | step _ ih => exact run_succ ih

/-- A walk fails as the children of some state do. -/
theorem run_ne_error {e : ε} (h : ∀ s, D.children s ≠ .error e) : D.run fuel s ≠ some (.error e) := by
  induction fuel generalizing s with
  | zero => nofun
  | succ fuel ih =>
    cases hs : D.children s with
    | error e' =>
      rw [run_error hs]
      intro he
      cases he
      exact h s hs
    | ok ts =>
      rw [run_children hs]
      have hbelow := runAll_ne_error (fun t => @ih t) ts
      generalize runAll (D.run fuel) ts = r at hbelow ⊢
      cases r with
      | none => nofun
      | some r =>
        cases r with
        | error e' =>
          intro he
          cases he
          exact hbelow rfl
        | ok bs => nofun

/-- A walk that returns never fails. -/
theorem Returns.ne_error (h : D.Returns s) (e : ε) : D.run fuel s ≠ some (.error e) := by
  obtain ⟨enough, as, has⟩ := h
  intro herror
  rcases Nat.le_total fuel enough with hle | hle
  · rw [run_mono herror hle] at has
    cases has
  · rw [run_mono has hle] at herror
    cases herror

theorem exists_fuel_of_returns (h : ∀ u ∈ ts, D.Returns u) :
    ∃ fuel, ∀ u ∈ ts, ∃ bs, D.run fuel u = some (.ok bs) := by
  induction ts with
  | nil => exact ⟨0, nofun⟩
  | cons s ts ih =>
    obtain ⟨fuel, bs, hs⟩ := h s List.mem_cons_self
    obtain ⟨fuel', hts⟩ := ih fun u hu => h u (List.mem_cons_of_mem s hu)
    refine ⟨max fuel fuel', fun u hu => ?_⟩
    rcases List.mem_cons.mp hu with rfl | hu
    · exact ⟨bs, run_mono hs (Nat.le_max_left _ _)⟩
    · obtain ⟨cs, hcs⟩ := hts u hu
      exact ⟨cs, run_mono hcs (Nat.le_max_right _ _)⟩

/-- The children of a state that are all walked to the end. -/
theorem returns_of_children (hs : D.children s = .ok ts) (h : ∀ u ∈ ts, D.Returns u) :
    D.Returns s := by
  obtain ⟨fuel, hfuel⟩ := exists_fuel_of_returns h
  obtain ⟨as, has⟩ : ∃ as, runAll (D.run fuel) (ts ++ []) =
      (runAll (D.run fuel) []).map fun r => r.map (as ++ ·) := runAll_append hfuel
  rw [List.append_nil] at has
  refine ⟨fuel + 1, s :: as ++ [], ?_⟩
  rw [run_children hs, has]
  rfl

/-- **A walk returns iff everything below is there.** -/
theorem returns_iff_complete : D.Returns s ↔ D.Complete s := by
  constructor
  · rintro ⟨fuel, as, hrun⟩
    induction fuel generalizing s as with
    | zero => cases hrun
    | succ fuel ih =>
      cases hs : D.children s with
      | error e =>
        rw [run_error hs] at hrun
        cases hrun
      | ok ts =>
        rw [run_children hs, Option.map_eq_some_iff] at hrun
        obtain ⟨x, hx, hrun⟩ := hrun
        cases x with
        | error e => cases hrun
        | ok bs =>
          obtain ⟨ass, hall, -⟩ := runAll_eq_ok.mp hx
          refine .node hs fun t ht => ?_
          obtain ⟨cs, -, hcs⟩ := forall₂_exists_right hall ht
          exact ih cs hcs
  · intro h
    induction h with
    | node hs _ ih => exact returns_of_children hs ih

/-! ## Endless walks -/

/-- A walk that is over has walked every child it comes to, one level less deep. -/
theorem run_of_enters {r : Except ε (List σ)} (h : D.run (fuel + 1) s = some r)
    (hst : D.Enters s t) : ∃ r', D.run fuel t = some r' := by
  obtain ⟨pre, post, hchildren, hpre⟩ := hst
  by_contra hnone
  have ht : D.run fuel t = none := Option.eq_none_iff_forall_ne_some.mpr fun r' hr' => hnone ⟨r', hr'⟩
  have hne : ∀ u ∈ pre, ∀ e, D.run fuel u ≠ some (.error e) := by
    intro u hu
    exact (returns_iff_complete.mpr (hpre u hu)).ne_error
  rw [run_children hchildren, runAll_cut hne ht] at h
  cases h

/-- A walk that does not end comes to a child whose walk does not end. -/
theorem exists_enters_of_not_finishes (h : ¬ D.Finishes s) : ∃ t, D.Enters s t ∧ ¬ D.Finishes t := by
  cases hs : D.children s with
  | error e => exact absurd ⟨1, _, run_error hs⟩ h
  | ok ts =>
    by_cases hall : ∀ u ∈ ts, D.Returns u
    · obtain ⟨fuel, as, hrun⟩ := returns_of_children hs hall
      exact absurd ⟨fuel, _, hrun⟩ h
    · -- the first child that does not return: a failure there would end the whole walk
      obtain ⟨pre, t, post, rfl, hpre, ht⟩ := exists_first hall
      refine ⟨t, ⟨pre, post, hs, fun u hu => returns_iff_complete.mp (hpre u hu)⟩, ?_⟩
      rintro ⟨fuel, r, hrun⟩
      cases r with
      | ok as => exact ht ⟨fuel, as, hrun⟩
      | error e =>
        obtain ⟨fuel', hfuel'⟩ := exists_fuel_of_returns hpre
        have hpre' : ∀ u ∈ pre, ∃ bs, D.run (max fuel fuel') u = some (.ok bs) := by
          intro u hu
          obtain ⟨bs, hbs⟩ := hfuel' u hu
          exact ⟨bs, run_mono hbs (Nat.le_max_right _ _)⟩
        obtain ⟨as, has⟩ := runAll_append hpre'
        refine h ⟨max fuel fuel' + 1, .error e, ?_⟩
        rw [run_children hs, has, runAll_error (run_mono hrun (Nat.le_max_left _ _))]
        rfl

/-- **The walk over finitely many states ends iff it never comes back to a state it is below.** -/
theorem finishes_iff {S : Set σ} (hfinite : S.Finite) (hS : ∀ t u, D.Enters t u → t ∈ S) :
    D.Finishes s ↔ ¬ Cycles D.Enters s := by
  constructor
  · rintro ⟨fuel, r, hrun⟩ hcycles
    induction fuel generalizing s r with
    | zero => cases hrun
    | succ fuel ih =>
      obtain ⟨t, ht, hcycles⟩ := hcycles.next
      obtain ⟨r', hr'⟩ := run_of_enters hrun ht
      exact ih r' hr' hcycles
  · intro hno
    by_contra hnot
    exact hno (cycles_of_endless hfinite (fun t u _ => hS t u)
      (fun s h => exists_enters_of_not_finishes h) hnot)

/-! ## Paths -/

/-- Going down from `s`, each time to the child with the given index, leads to `u`. -/
def Path (D : Descent ε σ) : σ → List Nat → σ → Prop
  | s, [], u => s = u
  | s, i :: p, u => ∃ ts t, D.children s = .ok ts ∧ ts[i]? = some t ∧ D.Path t p u

/-- Some path leads from `s` to `u`. -/
def Reaches (D : Descent ε σ) (s u : σ) : Prop := ∃ p, D.Path s p u

theorem Path.unique {p : List Nat} {u v : σ} (hu : D.Path s p u) (hv : D.Path s p v) : u = v := by
  induction p generalizing s with
  | nil => exact hu.symm.trans hv
  | cons i p ih =>
    obtain ⟨ts, t, hs, ht, hu⟩ := hu
    obtain ⟨ts', t', hs', ht', hv⟩ := hv
    rw [hs] at hs'
    cases hs'
    rw [ht] at ht'
    cases ht'
    exact ih hu hv

/-- `ps` are the paths from `s`, in the order of the states `as` they lead to. -/
structure Paths (D : Descent ε σ) (s : σ) (ps : List (List Nat)) (as : List σ) : Prop where
  nodup : ps.Nodup
  lead : List.Forall₂ (fun p t => D.Path s p t) ps as
  all : ∀ p t, D.Path s p t → p ∈ ps

/-- The paths that start at one of the states `ts`, the first of which is the child number `k`. -/
theorem paths_all {ass : List (List σ)} {k : Nat}
    (h : List.Forall₂ (fun t as => ∃ ps, D.Paths t ps as) ts ass) :
    ∃ ps : List (List Nat), ps.Nodup ∧
      List.Forall₂ (fun p u => ∃ i t q, p = (k + i) :: q ∧ ts[i]? = some t ∧ D.Path t q u) ps
        ass.flatten ∧
      ∀ i t q u, ts[i]? = some t → D.Path t q u → (k + i) :: q ∈ ps := by
  induction h generalizing k with
  | nil =>
    refine ⟨[], .nil, .nil, ?_⟩
    intro i t q u ht
    cases ht
  | @cons t as ts ass hfirst hrest ih =>
    obtain ⟨ps, hps⟩ := hfirst
    obtain ⟨qs, hnodup, hlead, hall⟩ := @ih (k + 1)
    refine ⟨ps.map (k :: ·) ++ qs, ?_, ?_, ?_⟩
    · refine List.nodup_append'.mpr ⟨hps.nodup.map (List.cons_injective), hnodup, ?_⟩
      -- a later path starts with a larger index
      intro p hp hq
      obtain ⟨q, -, rfl⟩ := List.mem_map.mp hp
      obtain ⟨u, -, i, t', q', hcons, -⟩ := forall₂_exists_right hlead hq
      have hindex := (List.cons_eq_cons.mp hcons).1
      omega
    · rw [List.flatten_cons]
      refine List.rel_append ?_ ?_
      · rw [List.forall₂_map_left_iff]
        exact hps.lead.imp fun q u hq => ⟨0, t, q, rfl, rfl, hq⟩
      · refine hlead.imp ?_
        rintro p u ⟨i, t', q, rfl, ht', hq⟩
        exact ⟨i + 1, t', q, by rw [Nat.add_assoc, Nat.add_comm 1], ht', hq⟩
    · intro i t' q u ht' hq
      rw [List.mem_append]
      cases i with
      | zero =>
        rw [List.getElem?_cons_zero, Option.some_inj] at ht'
        subst ht'
        exact .inl (List.mem_map.mpr ⟨q, hps.all q u hq, rfl⟩)
      | succ i =>
        have hmem := hall i t' q u ht' hq
        rw [Nat.add_assoc, Nat.add_comm 1] at hmem
        exact .inr hmem

/-- A walk that returns follows every path once. -/
theorem exists_paths {as : List σ} (h : D.run fuel s = some (.ok as)) : ∃ ps, D.Paths s ps as := by
  induction fuel generalizing s as with
  | zero => cases h
  | succ fuel ih =>
    cases hs : D.children s with
    | error e =>
      rw [run_error hs] at h
      cases h
    | ok ts =>
      rw [run_children hs, Option.map_eq_some_iff] at h
      obtain ⟨x, hx, h⟩ := h
      cases x with
      | error e => cases h
      | ok bs =>
        cases h
        obtain ⟨ass, hall, rfl⟩ := runAll_eq_ok.mp hx
        obtain ⟨ps, hnodup, hlead, hmem⟩ := @paths_all _ _ D ts ass 0 (hall.imp fun t cs => ih)
        refine ⟨[] :: ps, ?_, .cons rfl ?_, ?_⟩
        · refine List.nodup_cons.mpr ⟨?_, hnodup⟩
          intro hnil
          obtain ⟨u, -, i, t, q, hcons, -⟩ := forall₂_exists_right hlead hnil
          cases hcons
        · refine hlead.imp ?_
          rintro p u ⟨i, t, q, rfl, ht, hq⟩
          exact ⟨ts, t, hs, by rw [Nat.zero_add, ht], hq⟩
        · intro p u hp
          cases p with
          | nil => exact List.mem_cons_self
          | cons i q =>
            obtain ⟨ts', t, hs', ht, hq⟩ := hp
            rw [hs] at hs'
            cases hs'
            have hin := hmem i t q u ht hq
            rw [Nat.zero_add] at hin
            exact List.mem_cons_of_mem _ hin

/-- A walk that returns visits the states that some path leads to. -/
theorem mem_run_iff {as : List σ} (h : D.run fuel s = some (.ok as)) {u : σ} :
    u ∈ as ↔ D.Reaches s u := by
  obtain ⟨ps, hps⟩ := exists_paths h
  constructor
  · intro hu
    obtain ⟨p, -, hp⟩ := forall₂_exists_left hps.lead hu
    exact ⟨p, hp⟩
  · rintro ⟨p, hp⟩
    obtain ⟨v, hv, hp'⟩ := forall₂_exists_right hps.lead (hps.all p u hp)
    exact hp.unique hp' ▸ hv

/-- **A walk returns** iff every state that a path leads to gives its children, and no path is as long as
the fuel. -/
theorem exists_run_iff :
    (∃ as, D.run fuel s = some (.ok as)) ↔
      ∀ p u, D.Path s p u → p.length < fuel ∧ ∃ ts, D.children u = .ok ts := by
  induction fuel generalizing s with
  | zero =>
    refine iff_of_false ?_ ?_
    · rintro ⟨as, h⟩
      cases h
    · exact fun h => absurd (h [] s rfl).1 (Nat.not_lt_zero _)
  | succ fuel ih =>
    constructor
    · rintro ⟨as, h⟩ p u hp
      cases hs : D.children s with
      | error e =>
        rw [run_error hs] at h
        cases h
      | ok ts =>
        rw [run_children hs, Option.map_eq_some_iff] at h
        obtain ⟨x, hx, h⟩ := h
        cases x with
        | error e => cases h
        | ok bs =>
          obtain ⟨ass, hall, -⟩ := runAll_eq_ok.mp hx
          cases p with
          | nil =>
            cases hp
            exact ⟨Nat.succ_pos fuel, ts, hs⟩
          | cons i q =>
            obtain ⟨ts', t, hs', ht, hq⟩ := hp
            rw [hs] at hs'
            cases hs'
            obtain ⟨cs, -, hcs⟩ := forall₂_getElem? hall ht
            obtain ⟨hlength, hchildren⟩ := ih.mp ⟨cs, hcs⟩ q u hq
            exact ⟨Nat.succ_lt_succ hlength, hchildren⟩
    · intro h
      obtain ⟨-, ts, hs⟩ := h [] s rfl
      have hbelow : ∀ t ∈ ts, ∃ as, D.run fuel t = some (.ok as) := by
        intro t ht
        obtain ⟨i, hi⟩ := List.mem_iff_getElem?.mp ht
        refine ih.mpr fun q u hq => ?_
        obtain ⟨hlength, hchildren⟩ := h (i :: q) u ⟨ts, t, hs, hi, hq⟩
        exact ⟨Nat.lt_of_succ_lt_succ hlength, hchildren⟩
      obtain ⟨as, has⟩ : ∃ as, runAll (D.run fuel) (ts ++ []) =
          (runAll (D.run fuel) []).map fun r => r.map (as ++ ·) := runAll_append hbelow
      rw [List.append_nil] at has
      refine ⟨s :: as ++ [], ?_⟩
      rw [run_children hs, has]
      rfl

/-- **A walk that returns visits no state twice iff no two paths lead to one state.** -/
theorem nodup_iff {as : List σ} (h : D.run fuel s = some (.ok as)) :
    as.Nodup ↔ ∀ p q u, D.Path s p u → D.Path s q u → p = q := by
  obtain ⟨ps, hps⟩ := exists_paths h
  rw [forall₂_nodup_iff hps.lead Path.unique hps.nodup]
  constructor
  · intro hall p q u hp hq
    exact hall p (hps.all p u hp) q (hps.all q u hq) u hp hq
  · intro hall p _ q _ u hp hq
    exact hall p q u hp hq

/-! ## Corresponding walks -/

section Simulation

variable {τ : Type}

/-- Two walks came to the same: both were cut off, failed alike, or visited corresponding states. -/
inductive Same (R : σ → τ → Prop) : Option (Except ε (List σ)) → Option (Except ε (List τ)) → Prop
  | cut : Same R none none
  | error (e : ε) : Same R (some (.error e)) (some (.error e))
  | ok {as : List σ} {bs : List τ} (h : List.Forall₂ R as bs) :
      Same R (some (.ok as)) (some (.ok bs))

variable {R : σ → τ → Prop}

theorem Same.runAll {walk : σ → Option (Except ε (List σ))} {walk' : τ → Option (Except ε (List τ))}
    (hwalk : ∀ {s t}, R s t → Same R (walk s) (walk' t)) {us : List τ}
    (h : List.Forall₂ R ts us) : Same R (runAll walk ts) (runAll walk' us) := by
  induction h with
  | nil => exact .ok .nil
  | @cons s u ts us hsu _ ih =>
    have hfirst := hwalk hsu
    generalize hs : walk s = x at hfirst
    generalize hu : walk' u = y at hfirst
    cases hfirst with
    | cut =>
      rw [runAll_none hs, runAll_none hu]
      exact .cut
    | error e =>
      rw [runAll_error hs, runAll_error hu]
      exact .error e
    | ok hall =>
      rw [runAll_ok hs, runAll_ok hu]
      generalize Descent.runAll walk ts = x at ih
      generalize Descent.runAll walk' us = y at ih
      cases ih with
      | cut => exact .cut
      | error e => exact .error e
      | ok hrest => exact .ok (List.rel_append hall hrest)

/-- **Walks whose children correspond come to the same.** -/
theorem run_simulates {E : Descent ε τ}
    (hchildren : ∀ {s t}, R s t → Same R (some (D.children s)) (some (E.children t))) {t : τ}
    (h : R s t) : Same R (D.run fuel s) (E.run fuel t) := by
  induction fuel generalizing s t with
  | zero => exact .cut
  | succ fuel ih =>
    have hst := hchildren h
    generalize hs : D.children s = x at hst
    generalize ht : E.children t = y at hst
    cases hst with
    | error e =>
      rw [run_error hs, run_error ht]
      exact .error e
    | ok hall =>
      rw [run_children hs, run_children ht]
      have hbelow := Same.runAll ih hall
      generalize Descent.runAll (D.run fuel) _ = x at hbelow
      generalize Descent.runAll (E.run fuel) _ = y at hbelow
      cases hbelow with
      | cut => exact .cut
      | error e => exact .error e
      | ok hall => exact .ok (.cons h hall)

end Simulation

/-! ## Walks on a bounded stack -/

/-- What a walk comes to when going too deep is the failure `cut`. -/
def result {α : Type} (cut : ε) : Option (Except ε α) → Except ε α
  | none => .error cut
  | some r => r

theorem result_map {α β : Type} (cut : ε) (g : α → β) (r : Option (Except ε α)) :
    result cut (r.map fun x => x.map g) = (result cut r).map g := by
  cases r <;> rfl

theorem result_runAll (cut : ε) (walk : σ → Option (Except ε (List σ))) (ts : List σ) :
    result cut (runAll walk ts) =
      (ts.mapM fun t => result cut (walk t)) >>= fun ass => pure ass.flatten := by
  induction ts with
  | nil => rfl
  | cons s ts ih =>
    rw [List.mapM_cons]
    cases hs : walk s with
    | none =>
      rw [runAll_none hs]
      rfl
    | some x =>
      cases x with
      | error e =>
        rw [runAll_error hs]
        rfl
      | ok as =>
        rw [runAll_ok hs, result_map, ih, map_bind]
        cases ts.mapM fun t => result cut (walk t) <;> rfl

/-- **The walk as a recursive function.** -/
theorem result_run (cut : ε) :
    result cut (D.run (fuel + 1) s) = (do
      let ts ← D.children s
      let ass ← ts.mapM fun t => result cut (D.run fuel t)
      return s :: ass.flatten) := by
  cases hs : D.children s with
  | error e =>
    rw [run_error hs]
    rfl
  | ok ts =>
    rw [run_children hs, result_map, result_runAll, map_bind]
    rfl

end Descent

end Mocha.Lib
