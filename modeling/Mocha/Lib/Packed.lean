import Mathlib.Data.List.Basic
import Mocha.Lib.Endian
import Mocha.Lib.Tiling

/-!
# Records spread over byte buffers

A table of records can be kept as one buffer a column: `packed w ns` is a column of numbers, `w` bytes
each, and a column of texts is their concatenation, a *pool*, with a number column for the place of each
text in it. `wordAt` and `sliceAt` read the two kinds back by index arithmetic alone; `none` is a read
outside the buffer.

**`wordAt_packed`** and **`pool_sliceAt`**: what is read at index `i` is the `i`-th number and text.
-/

namespace Mocha.Lib

/-! ## Columns of numbers -/

/-- A column of numbers: the `w` low bytes of each. -/
def packed (w : Nat) (ns : List Nat) : List UInt8 := ns.flatMap (leBytes w)

/-- The `i`-th number of `w` bytes. -/
def wordAt (w : Nat) (buffer : List UInt8) (i : Nat) : Option Nat :=
  if w * i + w ≤ buffer.length then some (leNat ((buffer.drop (w * i)).take w)) else none

theorem packed_append (w : Nat) (ns ms : List Nat) : packed w (ns ++ ms) = packed w ns ++ packed w ms :=
  List.flatMap_append

theorem packed_singleton (w n : Nat) : packed w [n] = leBytes w n := List.flatMap_singleton _ n

theorem wordAt_nil {w : Nat} (hw : 0 < w) (i : Nat) : wordAt w [] i = none := by
  unfold wordAt
  rw [if_neg]
  simp only [List.length_nil]
  omega

theorem wordAt_zero {w : Nat} {bs : List UInt8} (hbs : bs.length = w) (rest : List UInt8) :
    wordAt w (bs ++ rest) 0 = some (leNat bs) := by
  unfold wordAt
  rw [if_pos (by rw [List.length_append]; omega), Nat.mul_zero, List.drop_zero, List.take_left' hbs]

theorem wordAt_succ {w : Nat} {bs : List UInt8} (hbs : bs.length = w) (rest : List UInt8) (i : Nat) :
    wordAt w (bs ++ rest) (i + 1) = wordAt w rest i := by
  have hindex : w * (i + 1) = bs.length + w * i := by rw [hbs, Nat.mul_succ, Nat.add_comm]
  unfold wordAt
  rw [hindex, List.drop_append, List.drop_eq_nil_of_le (Nat.le_add_right _ _), List.nil_append,
    Nat.add_sub_cancel_left, List.length_append]
  exact if_congr (by omega) rfl rfl

/-- **A number column** holds each number modulo what fits into its bytes. -/
theorem wordAt_packed_mod {w : Nat} (hw : 0 < w) : ∀ (ns : List Nat) (i : Nat),
    wordAt w (packed w ns) i = ns[i]?.map (· % 256 ^ w)
  | [], i => wordAt_nil hw i
  | n :: ns, 0 => by
    rw [packed, List.flatMap_cons, wordAt_zero (length_leBytes w n), leNat_leBytes_mod]
    rfl
  | n :: ns, i + 1 => by
    rw [packed, List.flatMap_cons, wordAt_succ (length_leBytes w n)]
    exact wordAt_packed_mod hw ns i

/-- **A number column** of values that fit into their bytes. -/
theorem wordAt_packed {α : Type} {w : Nat} (hw : 0 < w) {f : α → Nat} (hf : ∀ a, f a < 256 ^ w)
    (as : List α) (i : Nat) : wordAt w (packed w (as.map f)) i = as[i]?.map f := by
  rw [wordAt_packed_mod hw, List.getElem?_map, Option.map_map]
  refine congrArg (fun g => as[i]?.map g) (funext fun a => ?_)
  rw [Function.comp_apply, Nat.mod_eq_of_lt (hf a)]

/-! ## Pools of texts -/

section Pool

variable {α : Type}

/-- `n` elements from `offset` on. -/
def sliceAt (buffer : List α) (offset n : Nat) : Option (List α) :=
  if offset + n ≤ buffer.length then some ((buffer.drop offset).take n) else none

/-- Where each text begins in the pool. -/
def offsets (ts : List (List α)) : List Nat := (layOut 0 (ts.map List.length)).map Span.lower

theorem offsets_append_singleton (ts : List (List α)) (t : List α) :
    offsets (ts ++ [t]) = offsets ts ++ [ts.flatten.length] := by
  unfold offsets
  rw [List.map_append, layOut_append, List.map_append, Nat.zero_add, List.length_flatten]
  rfl

theorem sliceAt_eq_some {buffer t : List α} {offset n : Nat} :
    sliceAt buffer offset n = some t ↔ offset + n ≤ buffer.length ∧ (buffer.drop offset).take n = t := by
  unfold sliceAt
  rw [Option.ite_none_right_eq_some, Option.some_inj]

theorem sliceAt_append (pre t post : List α) :
    sliceAt (pre ++ (t ++ post)) pre.length t.length = some t := by
  rw [sliceAt_eq_some, List.drop_left, List.take_left, List.length_append, List.length_append]
  exact ⟨by omega, rfl⟩

/-- The pool around its `i`-th text. -/
theorem pool_split : ∀ {ts : List (List α)} {i : Nat} {t : List α} (a : Nat), ts[i]? = some t →
    ∃ pre post, ts.flatten = pre ++ (t ++ post) ∧
      ((layOut a (ts.map List.length)).map Span.lower)[i]? = some (a + pre.length)
  | [], _, _, _, h => by cases h
  | t :: ts, 0, _, a, h => by
    cases h
    exact ⟨[], ts.flatten, List.flatten_cons, rfl⟩
  | u :: ts, i + 1, t, a, h => by
    have hrest : ts[i]? = some t := h
    obtain ⟨pre, post, hflat, hlower⟩ := pool_split (a + u.length) hrest
    refine ⟨u ++ pre, post, ?_, ?_⟩
    · rw [List.flatten_cons, hflat, List.append_assoc]
    · rw [List.length_append, ← Nat.add_assoc]
      exact hlower

/-- **A pool** has its `i`-th text at the `i`-th offset, here in two parts. -/
theorem pool_sliceAt {ts : List (List α)} {i : Nat} {t u : List α} (h : ts[i]? = some (t ++ u)) :
    ∃ offset, (offsets ts)[i]? = some offset ∧
      sliceAt ts.flatten offset t.length = some t ∧
      sliceAt ts.flatten (offset + t.length) u.length = some u := by
  obtain ⟨pre, post, hflat, hlower⟩ := pool_split 0 h
  refine ⟨pre.length, ?_, ?_, ?_⟩
  · rw [Nat.zero_add] at hlower
    exact hlower
  · rw [hflat, List.append_assoc]
    exact sliceAt_append pre t (u ++ post)
  · rw [hflat, List.append_assoc, ← List.append_assoc, ← List.length_append]
    exact sliceAt_append (pre ++ t) u post

end Pool

end Mocha.Lib
