import Mocha.Lib.Cycle
import Mocha.Lib.Loop

/-!
# Loops that may not end

`Walk.run fuel` makes at most `fuel` turns of a loop. What it returns does not depend on the fuel
(`run_mono`), and `exists_run_iff` ties a returned list to the `Turns` of the loop.

**`halts_iff`**: a loop that can turn only in finitely many states ends iff it never comes back to
a state it was in.
-/

namespace Mocha.Lib.Walk

variable {ε σ α : Type} (W : Walk ε σ α)

/-- The results of the loop from `s` and the state it ends in, `none` if it takes more turns. -/
def run : Nat → σ → Option (Except ε (List α × σ))
  | 0, s => if W.more s then none else some (.ok ([], s))
  | fuel + 1, s =>
    if W.more s then
      match W.next s with
      | .error e => some (.error e)
      | .ok (a, t) => (run fuel t).map fun r => r.map fun p => (a :: p.1, p.2)
    else some (.ok ([], s))

/-- One turn leads from `s` to `t`. -/
def Step (s t : σ) : Prop := W.more s = true ∧ ∃ a, W.next s = .ok (a, t)

/-- The loop is over after some number of turns. -/
def Halts (s : σ) : Prop := ∃ fuel r, W.run fuel s = some r

/-- The loop comes back to a state it was in. -/
def Cycles (s : σ) : Prop :=
  ∃ t, Relation.ReflTransGen W.Step s t ∧ Relation.TransGen W.Step t t

variable {W} {s t u : σ} {a : α} {as : List α} {fuel : Nat}

theorem run_done (hm : W.more s = false) : W.run fuel s = some (.ok ([], s)) := by
  cases fuel with
  | zero => rw [run, hm]; rfl
  | succ fuel => rw [run, hm]; rfl

theorem run_error {e : ε} (hm : W.more s = true) (hn : W.next s = .error e) :
    W.run (fuel + 1) s = some (.error e) := by
  rw [run, if_pos hm, hn]

theorem run_turn (hm : W.more s = true) (hn : W.next s = .ok (a, t)) :
    W.run (fuel + 1) s = (W.run fuel t).map fun r => r.map fun p => (a :: p.1, p.2) := by
  rw [run, if_pos hm, hn]

/-- More fuel does not change the result. -/
theorem run_succ {r : Except ε (List α × σ)} (h : W.run fuel s = some r) :
    W.run (fuel + 1) s = some r := by
  induction fuel generalizing s r with
  | zero =>
    cases hm : W.more s with
    | false => rw [run_done hm] at h ⊢; exact h
    | true =>
      rw [run, if_pos hm] at h
      cases h
  | succ fuel ih =>
    cases hm : W.more s with
    | false => rw [run_done hm] at h ⊢; exact h
    | true =>
      cases hn : W.next s with
      | error e => rw [run_error hm hn] at h ⊢; exact h
      | ok p =>
        obtain ⟨a, t⟩ := p
        rw [run_turn hm hn, Option.map_eq_some_iff] at h
        obtain ⟨q, hq, rfl⟩ := h
        rw [run_turn hm hn, ih hq, Option.map_some]

theorem run_mono {r : Except ε (List α × σ)} {more : Nat} (h : W.run fuel s = some r)
    (hle : fuel ≤ more) : W.run more s = some r := by
  induction hle with
  | refl => exact h
  | step _ ih => exact run_succ ih

/-- **The loop returns what its turns give.** -/
theorem exists_run_iff : (∃ fuel, W.run fuel s = some (.ok (as, u))) ↔
    W.Turns s as u ∧ W.more u = false := by
  constructor
  · rintro ⟨fuel, h⟩
    induction fuel generalizing s as with
    | zero =>
      cases hm : W.more s with
      | false =>
        rw [run_done hm] at h
        cases h
        exact ⟨.nil _, hm⟩
      | true =>
        rw [run, if_pos hm] at h
        cases h
    | succ fuel ih =>
      cases hm : W.more s with
      | false =>
        rw [run_done hm] at h
        cases h
        exact ⟨.nil _, hm⟩
      | true =>
        cases hn : W.next s with
        | error e =>
          rw [run_error hm hn] at h
          cases h
        | ok p =>
          obtain ⟨a, t⟩ := p
          rw [run_turn hm hn, Option.map_eq_some_iff] at h
          obtain ⟨q, hq, h⟩ := h
          cases q with
          | error e => cases h
          | ok p =>
            cases h
            obtain ⟨hturns, hend⟩ := ih hq
            exact ⟨.cons hm hn hturns, hend⟩
  · rintro ⟨hturns, hend⟩
    induction hturns with
    | nil s => exact ⟨0, run_done hend⟩
    | cons hm hn _ ih =>
      obtain ⟨fuel, hrun⟩ := ih hend
      exact ⟨fuel + 1, by rw [run_turn hm hn, hrun]; rfl⟩

/-- The loop fails where one of its turns does. -/
theorem exists_run_error_iff {e : ε} : (∃ fuel, W.run fuel s = some (.error e)) ↔
    ∃ as u, W.Turns s as u ∧ W.more u = true ∧ W.next u = .error e := by
  constructor
  · rintro ⟨fuel, h⟩
    induction fuel generalizing s with
    | zero =>
      cases hm : W.more s with
      | false =>
        rw [run_done hm] at h
        cases h
      | true =>
        rw [run, if_pos hm] at h
        cases h
    | succ fuel ih =>
      cases hm : W.more s with
      | false =>
        rw [run_done hm] at h
        cases h
      | true =>
        cases hn : W.next s with
        | error e' =>
          rw [run_error hm hn] at h
          cases h
          exact ⟨[], s, .nil s, hm, hn⟩
        | ok p =>
          obtain ⟨a, t⟩ := p
          rw [run_turn hm hn, Option.map_eq_some_iff] at h
          obtain ⟨q, hq, h⟩ := h
          cases q with
          | ok p => cases h
          | error e' =>
            cases h
            obtain ⟨as, u, hturns, hu, hfail⟩ := ih hq
            exact ⟨a :: as, u, .cons hm hn hturns, hu, hfail⟩
  · rintro ⟨as, u, hturns, hu, hfail⟩
    induction hturns with
    | nil s => exact ⟨1, run_error hu hfail⟩
    | cons hm hn _ ih =>
      obtain ⟨fuel, hrun⟩ := ih hu hfail
      exact ⟨fuel + 1, by rw [run_turn hm hn, hrun]; rfl⟩

/-- The states the turns lead to are the ones the steps lead to. -/
theorem exists_turns_iff : (∃ as, W.Turns s as u) ↔ Relation.ReflTransGen W.Step s u := by
  constructor
  · rintro ⟨as, h⟩
    induction h with
    | nil s => exact .refl
    | cons hm hn _ ih => exact .head ⟨hm, _, hn⟩ ih
  · intro h
    induction h using Relation.ReflTransGen.head_induction_on with
    | refl => exact ⟨[], .nil u⟩
    | head hstep _ ih =>
      obtain ⟨hm, a, hn⟩ := hstep
      obtain ⟨as, hturns⟩ := ih
      exact ⟨a :: as, .cons hm hn hturns⟩

/-- A turn does not change whether the loop ends. -/
theorem halts_iff_of_step (h : W.Step s t) : W.Halts s ↔ W.Halts t := by
  obtain ⟨hm, a, hn⟩ := h
  constructor
  · rintro ⟨fuel, r, hrun⟩
    cases fuel with
    | zero =>
      rw [run, if_pos hm] at hrun
      cases hrun
    | succ fuel =>
      rw [run_turn hm hn, Option.map_eq_some_iff] at hrun
      obtain ⟨q, hq, _⟩ := hrun
      exact ⟨fuel, q, hq⟩
  · rintro ⟨fuel, r, hrun⟩
    exact ⟨fuel + 1, _, by rw [run_turn hm hn, hrun, Option.map_some]⟩

/-- A loop that does not end makes a turn, and does not end after it either. -/
theorem exists_step_of_not_halts (h : ¬ W.Halts s) : ∃ t, W.Step s t ∧ ¬ W.Halts t := by
  cases hm : W.more s with
  | false => exact absurd ⟨0, _, run_done hm⟩ h
  | true =>
    cases hn : W.next s with
    | error e => exact absurd ⟨1, _, run_error hm hn⟩ h
    | ok p =>
      have hstep : W.Step s p.2 := ⟨hm, p.1, hn⟩
      exact ⟨p.2, hstep, fun ht => h ((halts_iff_of_step hstep).mpr ht)⟩

/-- A loop that comes back to a state never ends: the fuel runs out on the way around. -/
theorem not_halts_of_cycles (h : W.Cycles s) : ¬ W.Halts s := by
  rintro ⟨fuel, r, hrun⟩
  induction fuel generalizing s r with
  | zero =>
    obtain ⟨t, ⟨hm, _⟩, _⟩ := Lib.Cycles.next h
    rw [run, if_pos hm] at hrun
    cases hrun
  | succ fuel ih =>
    obtain ⟨t, ⟨hm, a, hn⟩, ht⟩ := Lib.Cycles.next h
    rw [run_turn hm hn, Option.map_eq_some_iff] at hrun
    obtain ⟨q, hq, _⟩ := hrun
    exact ih ht q hq

/-- **A loop over finitely many states ends iff it never comes back to one.** -/
theorem halts_iff {S : Set σ} (hfinite : S.Finite)
    (hS : ∀ t u, Relation.ReflTransGen W.Step s t → W.Step t u → t ∈ S) :
    W.Halts s ↔ ¬ W.Cycles s := by
  constructor
  · exact fun h hcycles => not_halts_of_cycles hcycles h
  · intro hno
    by_contra hnot
    exact hno (cycles_of_endless (P := fun s => ¬ W.Halts s) hfinite hS
      (fun s h => exists_step_of_not_halts h) hnot)

end Mocha.Lib.Walk
