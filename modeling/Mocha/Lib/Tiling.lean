import Mathlib.Algebra.BigOperators.Group.List.Basic
import Mathlib.Algebra.GroupWithZero.Nat
import Mathlib.Data.List.Basic

/-!
# Intervals that tile a range

A `Span` is a half-open interval of positions. `Tiles a b ss` says that the spans `ss`, in order,
start at `a`, each begin where the previous one ends, and end at `b`. `layOut a ws` places
intervals of the widths `ws` one after another from `a`, which is how positions are recomputed
from widths alone.

**`layOut_widths`**: laying out the widths of spans that tile a range gives back those spans. A
recomputed position is right as soon as the originals tile.
-/

namespace Mocha.Lib

/-- The positions `lower`, …, `upper - 1`. -/
structure Span where
  lower : Nat
  upper : Nat
  deriving DecidableEq, Repr

namespace Span

/-- The number of positions. -/
def width (s : Span) : Nat := s.upper - s.lower

/-- The `n` positions from `a` on. -/
def of (a n : Nat) : Span := ⟨a, a + n⟩

@[simp] theorem of_lower (a n : Nat) : (of a n).lower = a := rfl

@[simp] theorem of_upper (a n : Nat) : (of a n).upper = a + n := rfl

@[simp] theorem of_width (a n : Nat) : (of a n).width = n := Nat.add_sub_cancel_left a n

end Span

/-- The spans cover `[a, b)` in order, without a gap or an overlap. -/
def Tiles : Nat → Nat → List Span → Prop
  | a, b, [] => a = b
  | a, b, s :: ss => s.lower = a ∧ a ≤ s.upper ∧ Tiles s.upper b ss

/-- Intervals of the given widths, one after another from `a`. -/
def layOut : Nat → List Nat → List Span
  | _, [] => []
  | a, w :: ws => Span.of a w :: layOut (a + w) ws

theorem tiles_nil {a : Nat} : Tiles a a [] := rfl

theorem tiles_cons {a n b : Nat} {ss : List Span} (h : Tiles (a + n) b ss) :
    Tiles a b (Span.of a n :: ss) :=
  ⟨rfl, Nat.le_add_right a n, h⟩

theorem Tiles.append : ∀ {a b c : Nat} {ss ts : List Span}, Tiles a b ss → Tiles b c ts →
    Tiles a c (ss ++ ts)
  | _, _, _, [], _, h, h' => by
    rw [Tiles] at h
    exact h ▸ h'
  | _, _, _, _ :: _, _, h, h' => ⟨h.1, h.2.1, Tiles.append h.2.2 h'⟩

theorem Tiles.le : ∀ {a b : Nat} {ss : List Span}, Tiles a b ss → a ≤ b
  | _, _, [], h => Nat.le_of_eq h
  | _, _, _ :: _, h => Nat.le_trans h.2.1 (Tiles.le h.2.2)

/-- Non-empty spans that tile a range start one after the other. -/
theorem Tiles.pairwise_lower : ∀ {a b : Nat} {ss : List Span}, Tiles a b ss →
    (∀ s ∈ ss, s.lower < s.upper) →
    (∀ s ∈ ss, a ≤ s.lower) ∧ ss.Pairwise fun s t => s.lower < t.lower
  | _, _, [], _, _ => ⟨nofun, .nil⟩
  | a, _, s :: ss, h, hpos => by
    obtain ⟨hlow, hpairs⟩ := Tiles.pairwise_lower h.2.2 fun t ht => hpos t (List.mem_cons_of_mem s ht)
    have hs := hpos s List.mem_cons_self
    have hlower := h.1
    refine ⟨?_, .cons ?_ hpairs⟩
    · intro t ht
      rcases List.mem_cons.mp ht with rfl | ht
      · omega
      · have ht' := hlow t ht
        omega
    · intro t ht
      have ht' := hlow t ht
      omega

/-- In a tiling a span begins at the start or where another one ends. -/
theorem Tiles.lower_eq : ∀ {a b : Nat} {ss : List Span}, Tiles a b ss → ∀ s ∈ ss,
    s.lower = a ∨ ∃ t ∈ ss, t.upper = s.lower
  | _, _, [], _, _, hs => absurd hs List.not_mem_nil
  | a, _, t :: ss, h, s, hs => by
    rcases List.mem_cons.mp hs with rfl | hs
    · exact .inl h.1
    · rcases Tiles.lower_eq h.2.2 s hs with hlower | ⟨u, hu, hlower⟩
      · exact .inr ⟨t, List.mem_cons_self, hlower.symm⟩
      · exact .inr ⟨u, List.mem_cons_of_mem t hu, hlower⟩

/-- Non-empty spans in increasing order tile if each begins at the start or where another one ends. -/
theorem tiles_of_lower_eq : ∀ {a : Nat} {ss : List Span}, ss.Pairwise (fun s t => s.lower < t.lower) →
    (∀ s ∈ ss, s.lower < s.upper) → (∀ s ∈ ss, s.lower = a ∨ ∃ t ∈ ss, t.upper = s.lower) →
    ∃ b, Tiles a b ss
  | a, [], _, _, _ => ⟨a, rfl⟩
  | a, s :: ss, hlt, hpos, hlower => by
    obtain ⟨hfirst, hlt⟩ := List.pairwise_cons.mp hlt
    have hs := hpos s List.mem_cons_self
    -- nothing ends at the first one, for all the others start behind it
    have ha : s.lower = a := by
      rcases hlower s List.mem_cons_self with ha | ⟨t, ht, heq⟩
      · exact ha
      · have hpos := hpos t ht
        rcases List.mem_cons.mp ht with rfl | ht
        · omega
        · have hlt := hfirst t ht
          omega
    obtain ⟨b, hb⟩ := tiles_of_lower_eq hlt (fun t ht => hpos t (List.mem_cons_of_mem s ht))
      (fun t ht => by
        rcases hlower t (List.mem_cons_of_mem s ht) with heq | ⟨u, hu, heq⟩
        · have hlt := hfirst t ht
          omega
        · rcases List.mem_cons.mp hu with rfl | hu
          · exact .inl heq.symm
          · exact .inr ⟨u, hu, heq⟩)
    exact ⟨b, ha, by omega, hb⟩

/-- **Non-empty spans in order tile** iff no two begin together and each begins at the start or where
another one ends. -/
theorem exists_tiles_iff {a : Nat} {ss : List Span} (hsorted : ss.Pairwise fun s t => s.lower ≤ t.lower)
    (hpos : ∀ s ∈ ss, s.lower < s.upper) :
    (∃ b, Tiles a b ss) ↔ (ss.map Span.lower).Nodup ∧
      ∀ s ∈ ss, s.lower = a ∨ ∃ t ∈ ss, t.upper = s.lower := by
  constructor
  · rintro ⟨b, h⟩
    refine ⟨?_, h.lower_eq⟩
    rw [List.Nodup, List.pairwise_map]
    exact (h.pairwise_lower hpos).2.imp Nat.ne_of_lt
  · rintro ⟨hnodup, hlower⟩
    rw [List.Nodup, List.pairwise_map] at hnodup
    exact tiles_of_lower_eq (hsorted.imp₂ (fun s t hle hne => Nat.lt_of_le_of_ne hle hne) hnodup)
      hpos hlower

theorem layOut_tiles : ∀ (a : Nat) (ws : List Nat), Tiles a (a + ws.sum) (layOut a ws)
  | _, [] => tiles_nil
  | a, w :: ws => by
    rw [layOut, List.sum_cons, ← Nat.add_assoc]
    exact tiles_cons (layOut_tiles (a + w) ws)

/-- **Laying out the widths of a tiling gives it back.** -/
theorem layOut_widths : ∀ {a b : Nat} {ss : List Span}, Tiles a b ss →
    layOut a (ss.map Span.width) = ss
  | _, _, [], _ => rfl
  | a, _, s :: ss, h => by
    obtain ⟨hl, hle, ht⟩ := h
    subst hl
    have hw : s.lower + s.width = s.upper := Nat.add_sub_cancel' hle
    rw [List.map_cons, layOut, hw, layOut_widths ht]
    unfold Span.of
    rw [hw]

/-- The widths of a tiling add up to the range. -/
theorem Tiles.sum_widths {a b : Nat} {ss : List Span} (h : Tiles a b ss) :
    a + (ss.map Span.width).sum = b := by
  induction ss generalizing a with
  | nil => exact h
  | cons s ss ih =>
    obtain ⟨hl, hle, ht⟩ := h
    have hrest := ih ht
    rw [List.map_cons, List.sum_cons]
    have hw : s.width = s.upper - s.lower := rfl
    omega

/-- Every laid-out interval lies in the range the widths span. -/
theorem mem_layOut_bounds : ∀ {a : Nat} {ws : List Nat} {s : Span}, s ∈ layOut a ws →
    a ≤ s.lower ∧ s.upper ≤ a + ws.sum
  | _, [], _, h => absurd h List.not_mem_nil
  | a, w :: ws, s, h => by
    rw [layOut, List.mem_cons] at h
    rw [List.sum_cons]
    rcases h with rfl | h
    · exact ⟨Nat.le_refl a, by rw [Span.of_upper]; omega⟩
    · obtain ⟨h1, h2⟩ := mem_layOut_bounds h
      exact ⟨by omega, by omega⟩

theorem Tiles.bounds {a b : Nat} {ss : List Span} (h : Tiles a b ss) {s : Span} (hs : s ∈ ss) :
    a ≤ s.lower ∧ s.upper ≤ b := by
  rw [← layOut_widths h] at hs
  have hbounds := mem_layOut_bounds hs
  rwa [h.sum_widths] at hbounds

theorem layOut_map_width : ∀ (a : Nat) (ws : List Nat), (layOut a ws).map Span.width = ws
  | _, [] => rfl
  | a, w :: ws => by rw [layOut, List.map_cons, Span.of_width, layOut_map_width]

/-- A layout moved from `a` to `b`, at any place behind. -/
theorem layOut_moved (a b : Nat) : ∀ (k : Nat) (ws : List Nat),
    (layOut (a + k) ws).map (fun s => Span.of (s.lower - a + b) s.width) = layOut (k + b) ws
  | _, [] => rfl
  | k, w :: ws => by
    rw [layOut, List.map_cons, Nat.add_assoc, layOut_moved, layOut, Span.of_lower, Span.of_width,
      Nat.add_sub_cancel_left, Nat.add_right_comm]

theorem layOut_append : ∀ (a : Nat) (us ws : List Nat),
    layOut a (us ++ ws) = layOut a us ++ layOut (a + us.sum) ws
  | _, [], _ => rfl
  | a, u :: us, ws => by
    rw [List.cons_append, layOut, layOut_append, layOut, List.cons_append, List.sum_cons,
      Nat.add_assoc]

end Mocha.Lib
