import Mathlib.Data.Set.Finite.Basic
import Mathlib.Logic.Relation
import Mathlib.Order.Monotone.Basic

/-!
# Endless chains of steps

A chain of steps that goes on forever within finitely many states comes back to one of them.
**`cycles_of_endless`** is the direction that needs an argument; `Cycles.next` is what makes a chain
that comes back go on. `reflTransGen_map_iff` and `cycles_map_iff` move chains and cycles along an embedding
of the states.
-/

namespace Mocha.Lib

variable {σ : Type} {R : σ → σ → Prop} {s : σ}

/-- Some chain of steps from `s` comes to a state that it comes back to. -/
def Cycles (R : σ → σ → Prop) (s : σ) : Prop :=
  ∃ t, Relation.ReflTransGen R s t ∧ Relation.TransGen R t t

/-- A chain that comes back takes another step. -/
theorem Cycles.next (h : Cycles R s) : ∃ t, R s t ∧ Cycles R t := by
  obtain ⟨t, hreach, hcycle⟩ := h
  rcases Relation.ReflTransGen.cases_head hreach with rfl | ⟨u, hu, hreach⟩
  · obtain ⟨u, hu, hback⟩ := Relation.TransGen.head'_iff.mp hcycle
    exact ⟨u, hu, s, hback, hcycle⟩
  · exact ⟨u, hu, t, hreach, hcycle⟩

/-- **An endless chain within finitely many states comes back to one.** -/
theorem cycles_of_endless {P : σ → Prop} {S : Set σ} (hfinite : S.Finite)
    (hS : ∀ t u, Relation.ReflTransGen R s t → R t u → t ∈ S)
    (hnext : ∀ s, P s → ∃ t, R s t ∧ P t) (hs : P s) : Cycles R s := by
  choose! next hstep hkeep using hnext
  have hall : ∀ n, P (next^[n] s) := by
    intro n
    induction n with
    | zero => exact hs
    | succ n ih =>
      rw [Function.iterate_succ_apply']
      exact hkeep _ ih
  have hturn : ∀ n, R (next^[n] s) (next^[n + 1] s) := by
    intro n
    rw [Function.iterate_succ_apply']
    exact hstep _ (hall n)
  have hlater : ∀ {i j}, i < j → Relation.TransGen R (next^[i] s) (next^[j] s) :=
    fun hlt => Nat.rel_of_forall_rel_succ_of_lt (Relation.TransGen R)
      (f := fun n => next^[n] s) (fun n => .single (hturn n)) hlt
  have hreach : ∀ n, Relation.ReflTransGen R s (next^[n] s) := by
    intro n
    cases n with
    | zero => exact .refl
    | succ n => exact (hlater (Nat.succ_pos n)).to_reflTransGen
  have hrepeat : ∃ i j, i < j ∧ next^[i] s = next^[j] s := by
    by_contra hdistinct
    refine Set.infinite_of_injective_forall_mem (f := fun n => next^[n] s) ?_
      (fun n => hS _ _ (hreach n) (hturn n)) hfinite
    intro i j hij
    rcases Nat.lt_trichotomy i j with hlt | rfl | hlt
    · exact absurd ⟨i, j, hlt, hij⟩ hdistinct
    · rfl
    · exact absurd ⟨j, i, hlt, hij.symm⟩ hdistinct
  obtain ⟨i, j, hlt, hij⟩ := hrepeat
  have hcycle := hlater hlt
  rw [← hij] at hcycle
  exact ⟨_, hreach i, hcycle⟩

section Image

variable {α : Type} {S : α → α → Prop} {f : α → σ}

/-- **Chains of an image.** The steps from a state of the image are those of its preimage. -/
theorem reflTransGen_map_iff (h : ∀ a t, R (f a) t ↔ ∃ b, S a b ∧ t = f b) {a : α} {t : σ} :
    Relation.ReflTransGen R (f a) t ↔ ∃ b, Relation.ReflTransGen S a b ∧ t = f b := by
  constructor
  · intro hreach
    induction hreach with
    | refl => exact ⟨a, .refl, rfl⟩
    | tail _ hstep ih =>
      obtain ⟨b, hab, rfl⟩ := ih
      obtain ⟨c, hbc, rfl⟩ := (h _ _).mp hstep
      exact ⟨c, hab.tail hbc, rfl⟩
  · rintro ⟨b, hreach, rfl⟩
    exact hreach.lift f fun a b hab => (h a (f b)).mpr ⟨b, hab, rfl⟩

/-- **Cycles of an image.** `f` embeds the states of `S` into those of `R`, with the same steps. -/
theorem cycles_map_iff (hf : Function.Injective f) (h : ∀ a t, R (f a) t ↔ ∃ b, S a b ∧ t = f b) {a : α} :
    Cycles R (f a) ↔ Cycles S a := by
  have hlift : ∀ a b, S a b → R (f a) (f b) := fun a b hab => (h a (f b)).mpr ⟨b, hab, rfl⟩
  constructor
  · rintro ⟨t, hreach, hcycle⟩
    obtain ⟨b, hab, rfl⟩ := (reflTransGen_map_iff h).mp hreach
    -- the first step of the way around, and the rest of it
    obtain ⟨u, hstep, hback⟩ := Relation.TransGen.head'_iff.mp hcycle
    obtain ⟨c, hbc, rfl⟩ := (h _ _).mp hstep
    obtain ⟨e, hce, heq⟩ := (reflTransGen_map_iff h).mp hback
    cases hf heq
    exact ⟨b, hab, .head' hbc hce⟩
  · rintro ⟨b, hreach, hcycle⟩
    exact ⟨f b, hreach.lift f hlift, hcycle.lift f hlift⟩

end Image

end Mocha.Lib
