import Mathlib.Data.List.Basic
import Mathlib.Tactic.Ring

/-!
# A list shown in pages

`n` items are shown in pages of `p`. The number of pages, the number of items on a page and the item at a
place on a page are computed independently of each other: by division (`pageCount`), by a comparison
(`pageSize`) and by multiplication (`p * g + j`). **`places_items`** says that they agree: page after
page and place after place, the items are `0`, …, `n - 1`.
-/

namespace Mocha.Lib

/-- The number of pages. -/
def pageCount (p n : Nat) : Nat := if n % p ≠ 0 then n / p + 1 else n / p

/-- The number of items on page `g`. -/
def pageSize (p n g : Nat) : Nat := if (g + 1) * p ≤ n then p else n % p

/-- Page and place, in reading order. -/
def places (count : Nat) (size : Nat → Nat) : List (Nat × Nat) :=
  (List.range count).flatMap fun g => (List.range (size g)).map fun j => (g, j)

/-- The item at a place. -/
def item (p : Nat) (place : Nat × Nat) : Nat := place.1 * p + place.2

variable {p n : Nat}

theorem places_succ (count : Nat) (size : Nat → Nat) :
    places (count + 1) size = places count size ++ (List.range (size count)).map fun j => (count, j) := by
  unfold places
  rw [List.range_succ, List.flatMap_append, List.flatMap_singleton]

theorem mem_places {count : Nat} {size : Nat → Nat} {place : Nat × Nat} :
    place ∈ places count size ↔ place.1 < count ∧ place.2 < size place.1 := by
  unfold places
  obtain ⟨g, j⟩ := place
  simp only [List.mem_flatMap, List.mem_map, List.mem_range, Prod.mk.injEq]
  constructor
  · rintro ⟨g', hg, j', hj, rfl, rfl⟩
    exact ⟨hg, hj⟩
  · rintro ⟨hg, hj⟩
    exact ⟨g, hg, j, hj, rfl, rfl⟩

/-- The items of pages that are full. -/
theorem places_full {s : Nat → Nat} : ∀ {q : Nat}, (∀ g < q, s g = p) →
    (places q s).map (item p) = List.range (q * p)
  | 0, _ => by
    rw [Nat.zero_mul]
    rfl
  | q + 1, h => by
    rw [places_succ, List.map_append, places_full fun g hg => h g (Nat.lt_succ_of_lt hg),
      h q (Nat.lt_succ_self q), Nat.succ_mul, List.range_add, List.map_map]
    rfl

theorem pageSize_of_lt {g : Nat} (hg : g < n / p) : pageSize p n g = p := by
  have hle : (g + 1) * p ≤ n := (Nat.mul_le_mul_right p hg).trans (Nat.div_mul_le_self n p)
  unfold pageSize
  rw [if_pos hle]

theorem pageSize_last (hp : 0 < p) : pageSize p n (n / p) = n % p := by
  have hlt : n < (n / p + 1) * p := by
    rw [Nat.mul_comm]
    exact Nat.lt_mul_div_succ n hp
  unfold pageSize
  rw [if_neg (Nat.not_le_of_lt hlt)]

/-- **Page after page**, the items are all of them in order. -/
theorem places_items (hp : 0 < p) (n : Nat) :
    (places (pageCount p n) (pageSize p n)).map (item p) = List.range n := by
  have hfull := places_full (p := p) (s := pageSize p n) fun g hg => pageSize_of_lt (n := n) hg
  have hn : n / p * p + n % p = n := Nat.div_add_mod' n p
  unfold pageCount
  by_cases hrest : n % p ≠ 0
  · rw [if_pos hrest, places_succ, List.map_append, hfull, pageSize_last hp, List.map_map]
    conv_rhs => rw [← hn, List.range_add]
    rfl
  · rw [if_neg hrest, hfull]
    rw [not_not.mp hrest, Nat.add_zero] at hn
    rw [hn]

end Mocha.Lib
