import Mathlib.Data.List.Forall2

/-!
# Fallible loops that collect results

`bind_eq_ok` takes a fallible `do` block apart: it returns iff its first step returns and the rest
returns on that result. `mapM_eq_ok` does the same for a fallible map over a list.

A `Walk` is `while more(s) { results.append(next(&s)) }` where one turn can fail. `Turns L s as t` is
its unrolled form: from `s`, the turns give `as` and leave the state `t`. Facts about loops are
proved by induction on `Turns`. A `Loop` is one that carries a rank which every successful turn
lowers, so `Loop.run` is total. **`run_eq_ok_iff`**: the loop returns `as` iff the turns from `s`
give `as` and end in a state where the condition fails.
-/

namespace Mocha.Lib

section Related

variable {α β : Type} {R : α → β → Prop} {as : List α} {bs : List β}

/-- Every left element of related lists has a partner. -/
theorem forall₂_exists_right (h : List.Forall₂ R as bs) {a : α} (ha : a ∈ as) :
    ∃ b ∈ bs, R a b := by
  induction h with
  | nil => cases ha
  | cons hab _ ih =>
    rcases List.mem_cons.mp ha with rfl | ha
    · exact ⟨_, List.mem_cons_self, hab⟩
    · obtain ⟨b, hb, hr⟩ := ih ha
      exact ⟨b, List.mem_cons_of_mem _ hb, hr⟩

theorem forall₂_exists_left (h : List.Forall₂ R as bs) {b : β} (hb : b ∈ bs) :
    ∃ a ∈ as, R a b :=
  forall₂_exists_right (List.Forall₂.flip h) hb

theorem forall₂_getElem? (h : List.Forall₂ R as bs) {i : Nat} {a : α} (ha : as[i]? = some a) :
    ∃ b, bs[i]? = some b ∧ R a b := by
  obtain ⟨hlt, rfl⟩ := List.getElem?_eq_some_iff.mp ha
  have hlt' : i < bs.length := h.length_eq ▸ hlt
  exact ⟨bs[i], List.getElem?_eq_getElem hlt', h.get hlt hlt'⟩

end Related

section Except

variable {ε α β : Type}

theorem bind_eq_ok {x : Except ε α} {f : α → Except ε β} {b : β} :
    (x >>= f) = .ok b ↔ ∃ a, x = .ok a ∧ f a = .ok b := by
  cases x with
  | error e =>
    constructor
    · intro h
      cases h
    · rintro ⟨_, h, _⟩
      cases h
  | ok a =>
    constructor
    · intro h
      exact ⟨a, rfl, h⟩
    · rintro ⟨_, h, h'⟩
      cases h
      exact h'

@[simp] theorem ok_bind (a : α) (f : α → Except ε β) :
    ((Except.ok a : Except ε α) >>= f) = f a := rfl

@[simp] theorem error_bind (e : ε) (f : α → Except ε β) :
    ((Except.error e : Except ε α) >>= f) = .error e := rfl

@[simp] theorem pure_eq_ok (a : α) : (pure a : Except ε α) = .ok a := rfl

theorem map_bind {γ : Type} (g : β → γ) (x : Except ε α) (f : α → Except ε β) :
    (x >>= f).map g = x >>= fun a => (f a).map g := by
  cases x <;> rfl

/-- What does not return fails. -/
theorem exists_error_iff {x : Except ε α} : (∃ e, x = .error e) ↔ ∀ a, x ≠ .ok a := by
  cases x with
  | error e => exact iff_of_true ⟨e, rfl⟩ nofun
  | ok a =>
    refine iff_of_false ?_ fun h => h a rfl
    rintro ⟨e, he⟩
    cases he

theorem toOption_eq_some {x : Except ε α} {a : α} : x.toOption = some a ↔ x = .ok a := by
  cases x with
  | error e => exact iff_of_false (by intro h; cases h) (by intro h; cases h)
  | ok b =>
    rw [Except.ok.injEq]
    exact Option.some_inj

/-- A step with one possible result, inside a `do` block. -/
theorem bind_of_eq_ok {x : Except ε α} {p : Prop} {a : α} (hx : ∀ r, x = .ok r ↔ p ∧ r = a)
    {f : α → Except ε β} {b : β} : (x >>= f) = .ok b ↔ p ∧ f a = .ok b := by
  rw [bind_eq_ok]
  constructor
  · rintro ⟨r, hr, h⟩
    obtain ⟨hp, rfl⟩ := (hx r).mp hr
    exact ⟨hp, h⟩
  · rintro ⟨hp, h⟩
    exact ⟨a, (hx a).mpr ⟨hp, rfl⟩, h⟩

/-- A step that does not fail with `e`, inside a `do` block. -/
theorem bind_ne_error {x : Except ε α} {f : α → Except ε β} {e : ε} (hx : x ≠ .error e)
    (hf : ∀ a, f a ≠ .error e) : (x >>= f) ≠ .error e := by
  cases x with
  | error e' =>
    intro h
    cases h
    exact hx rfl
  | ok a => exact hf a

/-- Only the first step of such a block fails. -/
theorem bind_ok_eq_error {x : Except ε α} {f : α → β} {e : ε} :
    (x >>= fun a => Except.ok (f a)) = .error e ↔ x = .error e := by
  cases x with
  | error e' => rw [error_bind, Except.error.injEq, Except.error.injEq]
  | ok a => exact iff_of_false nofun nofun

/-- A fallible map returns when every element does. -/
theorem mapM_eq_ok {f : α → Except ε β} : ∀ {as : List α} {bs : List β},
    as.mapM f = .ok bs ↔ List.Forall₂ (fun a b => f a = .ok b) as bs
  | [], bs => by
    rw [List.mapM_nil, pure_eq_ok, Except.ok.injEq, List.forall₂_nil_left_iff]
    exact eq_comm
  | a :: as, bs => by
    rw [List.mapM_cons, bind_eq_ok, List.forall₂_cons_left_iff]
    constructor
    · rintro ⟨b, hb, h⟩
      rw [bind_eq_ok] at h
      obtain ⟨cs, hcs, h⟩ := h
      cases h
      exact ⟨b, cs, hb, mapM_eq_ok.mp hcs, rfl⟩
    · rintro ⟨b, cs, hb, hcs, rfl⟩
      refine ⟨b, hb, ?_⟩
      rw [mapM_eq_ok.mpr hcs]
      rfl

/-- A fallible map that returns for every element, and what the results are. -/
theorem mapM_total {f : α → Except ε β} {R : α → β → Prop} : ∀ {as : List α},
    (∀ a ∈ as, ∃ b, f a = .ok b ∧ R a b) → ∃ bs, as.mapM f = .ok bs ∧ List.Forall₂ R as bs
  | [], _ => ⟨[], rfl, .nil⟩
  | a :: as, h => by
    obtain ⟨b, hb, hr⟩ := h a List.mem_cons_self
    obtain ⟨bs, hbs, hrs⟩ := mapM_total fun x hx => h x (List.mem_cons_of_mem a hx)
    refine ⟨b :: bs, ?_, .cons hr hrs⟩
    rw [List.mapM_cons, hb, ok_bind, hbs]
    rfl

theorem exists_mapM_eq_ok {f : α → Except ε β} {as : List α} :
    (∃ bs, as.mapM f = .ok bs) ↔ ∀ a ∈ as, ∃ b, f a = .ok b := by
  constructor
  · rintro ⟨bs, hbs⟩ a ha
    obtain ⟨b, -, hb⟩ := forall₂_exists_right (mapM_eq_ok.mp hbs) ha
    exact ⟨b, hb⟩
  · intro h
    obtain ⟨bs, hbs, -⟩ := mapM_total (R := fun _ _ => True) fun a ha =>
      (h a ha).imp fun _ hb => ⟨hb, trivial⟩
    exact ⟨bs, hbs⟩

theorem mapM_ne_error {f : α → Except ε β} {e : ε} (hf : ∀ a, f a ≠ .error e) (as : List α) :
    as.mapM f ≠ .error e := by
  induction as with
  | nil => nofun
  | cons a as ih =>
    rw [List.mapM_cons]
    exact bind_ne_error (hf a) fun b => bind_ne_error ih fun bs => nofun

/-- A fallible map over the indices of a list that returns at each, and what the results are. -/
theorem mapM_range_total {γ : Type} {g : α → γ} {k : β → γ} : ∀ {as : List α} {f : Nat → Except ε β},
    (∀ i a, as[i]? = some a → ∃ b, f i = .ok b ∧ k b = g a) →
    ∃ bs, (List.range as.length).mapM f = .ok bs ∧ bs.map k = as.map g
  | [], _, _ => ⟨[], rfl, rfl⟩
  | a :: as, f, h => by
    obtain ⟨b, hb, hba⟩ := h 0 a rfl
    obtain ⟨bs, hbs, hmap⟩ := mapM_range_total (f := fun i => f (i + 1))
      (fun i a' (hi : as[i]? = some a') => h (i + 1) a' hi)
    refine ⟨b :: bs, ?_, by rw [List.map_cons, hba, hmap, List.map_cons]⟩
    rw [List.length_cons, List.range_succ_eq_map, List.mapM_cons, List.mapM_map, hb, ok_bind]
    have hrest : (List.range as.length).mapM (f ∘ Nat.succ) = .ok bs := hbs
    rw [hrest]
    rfl

/-- Two fallible maps in a row. -/
theorem mapM_then_mapM {γ : Type} {f : α → Except ε β} {g : β → Except ε γ} :
    ∀ {as : List α} {bs : List β} {cs : List γ}, as.mapM f = .ok bs → bs.mapM g = .ok cs →
      List.Forall₂ (fun a c => ∃ b, f a = .ok b ∧ g b = .ok c) as cs := by
  intro as bs cs hf hg
  rw [mapM_eq_ok] at hf hg
  induction hf generalizing cs with
  | nil =>
    cases hg
    exact .nil
  | cons hab _ ih =>
    cases hg with
    | cons hbc hg => exact .cons ⟨_, hab, hbc⟩ (ih hg)

end Except

/-- `while more(s) { results.append(next(&s)) }`. -/
structure Walk (ε σ α : Type) where
  more : σ → Bool
  next : σ → Except ε (α × σ)

namespace Walk

variable {ε σ α : Type}

/-- The turns from `s` give `as` and leave `t`. -/
inductive Turns (L : Walk ε σ α) : σ → List α → σ → Prop
  | nil (s : σ) : Turns L s [] s
  | cons {s t u : σ} {a : α} {as : List α} (hm : L.more s = true) (hn : L.next s = .ok (a, t))
      (ht : Turns L t as u) : Turns L s (a :: as) u

/-- A relation between two positions and a list that composes along positions holds of a whole
run, when it holds of each turn. -/
theorem Turns.chain {β : Type} {L : Walk ε σ α} {I : σ → Prop} {pos : σ → Nat}
    {f : α → List β} {R : Nat → Nat → List β → Prop} (hnil : ∀ p, R p p [])
    (happend : ∀ {p q r xs ys}, R p q xs → R q r ys → R p r (xs ++ ys))
    (hstep : ∀ {s t a}, I s → L.more s = true → L.next s = .ok (a, t) →
      I t ∧ R (pos s) (pos t) (f a))
    {s u : σ} {as : List α} (h : L.Turns s as u) (hs : I s) :
    I u ∧ R (pos s) (pos u) (as.flatMap f) := by
  induction h with
  | nil s => exact ⟨hs, hnil _⟩
  | cons hm hn _ ih =>
    obtain ⟨hI, hR⟩ := hstep hs hm hn
    obtain ⟨hIu, hrest⟩ := ih hI
    rw [List.flatMap_cons]
    exact ⟨hIu, happend hR hrest⟩

end Walk

/-- A loop whose turns lower a rank. -/
structure Loop (ε σ α : Type) extends Walk ε σ α where
  rank : σ → Nat
  lowers : ∀ {s a t}, more s = true → next s = .ok (a, t) → rank t < rank s

namespace Loop

variable {ε σ α : Type}

/-- The results of the loop from `s`, and the state it ends in. -/
def run (L : Loop ε σ α) (s : σ) : Except ε (List α × σ) :=
  if _ : L.more s = true then
    match _ : L.next s with
    | .error e => .error e
    | .ok (a, t) =>
      match run L t with
      | .error e => .error e
      | .ok (as, u) => .ok (a :: as, u)
  else .ok ([], s)
termination_by L.rank s
decreasing_by exact L.lowers ‹_› ‹_›

theorem run_done {L : Loop ε σ α} {s : σ} (hm : L.more s = false) : L.run s = .ok ([], s) := by
  rw [run, dif_neg (by rw [hm]; exact Bool.false_ne_true)]

theorem run_step {L : Loop ε σ α} {s t : σ} {a : α} (hm : L.more s = true)
    (hn : L.next s = .ok (a, t)) :
    L.run s = (L.run t >>= fun r => .ok (a :: r.1, r.2)) := by
  rw [run, dif_pos hm]
  split
  · rename_i e he
    rw [hn] at he
    cases he
  · rename_i a' t' he
    rw [hn] at he
    cases he
    cases L.run t <;> rfl

theorem run_error {L : Loop ε σ α} {s : σ} {e : ε} (hm : L.more s = true)
    (hn : L.next s = .error e) : L.run s = .error e := by
  rw [run, dif_pos hm]
  split
  · rename_i e' he
    rw [hn] at he
    cases he
    rfl
  · rename_i a' t' he
    rw [hn] at he
    cases he

/-- A loop fails as one of its turns does. -/
theorem run_ne_error {L : Loop ε σ α} {e : ε} (h : ∀ s, L.next s ≠ .error e) (s : σ) :
    L.run s ≠ .error e := by
  generalize hr : L.rank s = n
  induction n using Nat.strongRecOn generalizing s with
  | ind n ih =>
    cases hm : L.more s with
    | false =>
      rw [run_done hm]
      nofun
    | true =>
      cases hn : L.next s with
      | error e' =>
        rw [run_error hm hn]
        intro he
        cases he
        exact h s hn
      | ok r =>
        rw [run_step hm hn]
        exact bind_ne_error (ih _ (hr ▸ L.lowers hm hn) r.2 rfl) fun _ => nofun

/-- **The loop returns what its turns give**, up to the first state where the condition fails. -/
theorem run_eq_ok_iff {L : Loop ε σ α} {s u : σ} {as : List α} :
    L.run s = .ok (as, u) ↔ L.Turns s as u ∧ L.more u = false := by
  constructor
  · intro h
    -- induction on the rank: each turn that returned lowered it
    generalize hr : L.rank s = n
    induction n using Nat.strongRecOn generalizing s as with
    | ind n ih =>
      cases hm : L.more s with
      | false =>
        rw [run_done hm] at h
        cases h
        exact ⟨.nil _, hm⟩
      | true =>
        cases hn : L.next s with
        | error e =>
          rw [run_error hm hn] at h
          cases h
        | ok r =>
          obtain ⟨a, t⟩ := r
          rw [run_step hm hn, bind_eq_ok] at h
          obtain ⟨⟨bs, v⟩, hrun, h⟩ := h
          cases h
          have hlt : L.rank t < n := hr ▸ L.lowers hm hn
          obtain ⟨hturns, hend⟩ := ih (L.rank t) hlt hrun rfl
          exact ⟨.cons hm hn hturns, hend⟩
  · rintro ⟨hturns, hend⟩
    induction hturns with
    | nil s => exact run_done hend
    | cons hm hn _ ih =>
      rw [run_step hm hn, ih hend]
      rfl

/-- **The loop returns** if every turn does, from the states an invariant allows. -/
theorem run_total {L : Loop ε σ α} {I : σ → Prop}
    (hstep : ∀ {s}, I s → L.more s = true → ∃ a t, L.next s = .ok (a, t) ∧ I t) {s : σ}
    (hs : I s) : ∃ as u, L.run s = .ok (as, u) := by
  generalize hr : L.rank s = n
  induction n using Nat.strongRecOn generalizing s with
  | ind n ih =>
    cases hm : L.more s with
    | false => exact ⟨[], s, run_done hm⟩
    | true =>
      obtain ⟨a, t, hn, ht⟩ := hstep hs hm
      obtain ⟨as, u, hrun⟩ := ih (L.rank t) (hr ▸ L.lowers hm hn) ht rfl
      exact ⟨a :: as, u, by rw [run_step hm hn, hrun]; rfl⟩

end Loop

end Mocha.Lib
