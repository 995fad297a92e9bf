import Mathlib.Data.List.Nodup
import Mocha.Components.ModelBased
import Mocha.Helpers.InterpreterUtils

/-!
# The pieces of a C-string component

`CStringComponent.runInitializing` is two loops that share a cursor. `PieceAt d o n` is what one turn
cuts off: a string with its NUL, a string the data ends in, or a run of NULs up to the next other
byte. `Starts` says where pieces begin: at 0 and after a NUL, but not inside a run of NULs; the NUL of
a string is not part of the run after it.

* **`cStrings_partition`**: the pieces partition the data, and the map knows their starts.
* **`findString_reads_iff`**: `findString` is asked for any offset, but it answers only where a piece
  starts, and its answer for a string includes the NUL. It gives the C string at an offset exactly
  where a run of NULs starts.
-/

namespace Mocha

open Lib Data DataShifter

/-! ## One turn -/

/-- The `n` bytes at `o` are a piece. -/
inductive PieceAt (d : Data) (o n : Nat) : Prop
  | string (bs : List UInt8) (hne : bs ≠ []) (hbs : 0 ∉ bs) (hd : d.Holds o (bs ++ [0]))
      (hn : n = bs.length + 1)
  | tail (bs : List UInt8) (hne : bs ≠ []) (hbs : 0 ∉ bs) (hd : d.Holds o bs) (hn : n = bs.length)
      (hend : o + n = d.count)
  | zeros (hpos : 0 < n) (hd : d.Holds o (List.replicate n 0)) (hend : d.bytes[o + n]? ≠ some 0)

theorem zerosEnd_holds (d : Data) (k : Nat) (hk : k ≤ d.count) :
    ∃ n, zerosEnd d k = k + n ∧ d.Holds k (List.replicate n 0) ∧ d.bytes[k + n]? ≠ some 0 := by
  fun_induction zerosEnd d k with
  | case1 k hlt hzero ih =>
    obtain ⟨n, hn, hholds, hend⟩ := ih hlt
    refine ⟨n + 1, by omega, ?_, by rwa [Nat.add_right_comm, Nat.add_assoc] at hend⟩
    rw [List.replicate_succ, holds_cons]
    exact ⟨hzero, hholds⟩
  | case2 k hlt hzero => exact ⟨0, rfl, holds_nil.mpr hk, hzero⟩
  | case3 k hge =>
    refine ⟨0, rfl, holds_nil.mpr hk, ?_⟩
    intro hzero
    exact hge (lt_count_of_getElem? hzero)

theorem stringEnd_holds (d : Data) (b : UInt8) (k : Nat) (hb : b ≠ 0) (hk : k ≤ d.count) :
    ∃ bs : List UInt8, 0 ∉ bs ∧
      ((d.Holds k (bs ++ [0]) ∧ stringEnd d b k = k + (bs.length + 1)) ∨
        (d.Holds k bs ∧ stringEnd d b k = k + bs.length ∧ k + bs.length = d.count)) := by
  fun_induction stringEnd d b k with
  | case1 b k hmore ih =>
    have hbyte : d.bytes[k]? = some (d.bytes.getD k 0) := by
      rw [List.getD_eq_getElem?_getD, List.getElem?_eq_getElem hmore.2, Option.getD_some]
    by_cases hzero : d.bytes.getD k 0 = 0
    · refine ⟨[], List.not_mem_nil, .inl ⟨?_, ?_⟩⟩
      · rw [List.nil_append, holds_singleton, hbyte, hzero]
      · rw [hzero, stringEnd, dif_neg (fun h => h.1 rfl), List.length_nil]
    · obtain ⟨bs, hbs, h⟩ := ih hzero hmore.2
      refine ⟨d.bytes.getD k 0 :: bs, ?_, ?_⟩
      · rw [List.mem_cons, not_or]
        exact ⟨fun h => hzero h.symm, hbs⟩
      · rw [List.length_cons]
        rcases h with ⟨hholds, hend⟩ | ⟨hholds, hend, hcount⟩
        · exact .inl ⟨holds_cons.mpr ⟨hbyte, hholds⟩, by omega⟩
        · exact .inr ⟨holds_cons.mpr ⟨hbyte, hholds⟩, by omega, by omega⟩
  | case2 b k hstop =>
    have hend : k = d.count := by
      by_contra hne
      exact hstop ⟨hb, by omega⟩
    exact ⟨[], List.not_mem_nil, .inr ⟨holds_nil.mpr hk, rfl, hend⟩⟩

/-- What `content` has for a piece. -/
def pieceContent (d : Data) (o n : Nat) : Option String :=
  if d.bytes[o]? = some 0 then some "" else (d.window o n).utf8String

/-- **One turn cuts off a piece.** -/
theorem nextCString_eq_ok {d : Data} {k t : Nat} {x : Field CStringModel}
    (h : nextCString d k = .ok (x, t)) :
    x.value.startOffset = k ∧ t = k + x.value.length ∧ PieceAt d k x.value.length ∧
      x.value.content = pieceContent d k x.value.length := by
  unfold nextCString at h
  rw [byteAt_bind] at h
  obtain ⟨b, hb, h⟩ := h
  have hk := lt_count_of_getElem? hb
  unfold pieceContent
  by_cases hzero : b = 0
  · rw [if_pos hzero] at h
    cases h
    subst hzero
    obtain ⟨n, hn, hholds, hend⟩ := zerosEnd_holds d (k + 1) hk
    have hlength : zerosEnd d (k + 1) - k = n + 1 := by omega
    refine ⟨rfl, by simp only; omega, ?_, by rw [if_pos hb]⟩
    rw [hlength]
    refine .zeros (Nat.succ_pos n) ?_ ?_
    · rw [List.replicate_succ, holds_cons]
      exact ⟨hb, hholds⟩
    · rwa [Nat.add_right_comm, Nat.add_assoc] at hend
  · rw [if_neg hzero] at h
    simp only [bind_eq_ok, subSequence_eq_ok] at h
    obtain ⟨_, ⟨hpos, hfit, rfl⟩, h⟩ := h
    cases h
    have hother : d.bytes[k]? ≠ some 0 := by
      rw [hb]
      intro h
      exact hzero (Option.some.inj h)
    refine ⟨rfl, by simp only; omega, ?_, by rw [if_neg hother]⟩
    obtain ⟨bs, hbs, hpiece⟩ := stringEnd_holds d b k hzero (Nat.le_of_lt hk)
    rcases hpiece with ⟨hholds, hend⟩ | ⟨hholds, hend, hcount⟩
    · refine .string bs ?_ hbs hholds (by simp only; omega)
      rintro rfl
      exact hother (holds_singleton.mp hholds)
    · refine .tail bs ?_ hbs hholds (by simp only; omega) (by simp only; omega)
      rintro rfl
      rw [List.length_nil] at hcount
      omega

/-! ## All turns -/

/-- A piece starts at `o`: at the start of the data, or after a NUL; if there is a NUL at `o` as well,
the one before it ended a string. -/
def Starts (d : Data) (o : Nat) : Prop :=
  o < d.count ∧ (o = 0 ∨ (d.bytes[o - 1]? = some 0 ∧
    (d.bytes[o]? = some 0 → 2 ≤ o ∧ d.bytes[o - 2]? ≠ some 0)))

theorem PieceAt.bounds {d : Data} {o n : Nat} (h : PieceAt d o n) : 0 < n ∧ o + n ≤ d.count := by
  cases h with
  | string bs hne hbs hd hn =>
    have hle := hd.1
    rw [List.length_append, List.length_singleton] at hle
    exact ⟨by omega, by omega⟩
  | tail bs hne hbs hd hn hend =>
    have hpos := List.length_pos_of_ne_nil hne
    exact ⟨by omega, by omega⟩
  | zeros hpos hd hend =>
    have hle := hd.1
    rw [List.length_replicate] at hle
    exact ⟨hpos, hle⟩

/-- A byte of what the data holds. -/
theorem Data.Holds.getElem? {d : Data} {k : Nat} {bs : List UInt8} (h : d.Holds k bs) {i : Nat}
    (hi : i < bs.length) : d.bytes[k + i]? = bs[i]? := by
  have hbytes := congrArg (fun l => l[i]?) h.2
  simp only [Data.window, List.getElem?_take, hi, if_true, List.getElem?_drop] at hbytes
  exact hbytes

/-- Inside a string there is no NUL before its end. -/
theorem holds_other {d : Data} {k i : Nat} {bs : List UInt8} (h : d.Holds k bs) (hbs : 0 ∉ bs)
    (hi : i < bs.length) : d.bytes[k + i]? ≠ some 0 := by
  rw [h.getElem? hi]
  exact fun hzero => hbs (List.mem_of_getElem? hzero)

theorem holds_zeros {d : Data} {k n i : Nat} (h : d.Holds k (List.replicate n 0)) (hi : i < n) :
    d.bytes[k + i]? = some 0 := by
  rw [h.getElem? (by rwa [List.length_replicate]), List.getElem?_replicate, if_pos hi]

/-- No piece starts inside a piece. -/
theorem PieceAt.inside {d : Data} {k n o : Nat} (h : PieceAt d k n) (hk : Starts d k) (hlt : k < o)
    (ho : o < k + n) : ¬ Starts d o := by
  rintro ⟨_, hzero | ⟨hbefore, hat⟩⟩
  · omega
  obtain ⟨i, rfl⟩ : ∃ i, o = k + i + 1 := ⟨o - k - 1, by omega⟩
  rw [Nat.add_sub_cancel] at hbefore
  cases h with
  | string bs hne hbs hd hn => exact holds_other (holds_append.mp hd).1 hbs (by omega) hbefore
  | tail bs hne hbs hd hn hend => exact holds_other hd hbs (by omega) hbefore
  | zeros hpos hd hend =>
    have hzero : d.bytes[k + (i + 1)]? = some 0 := holds_zeros hd (by omega)
    obtain ⟨hge, hother⟩ := hat hzero
    cases i with
    | zero =>
      -- the piece is the run that starts at `k`, so the byte before `k` is no part of a string
      have hfirst : d.bytes[k]? = some 0 := holds_zeros (i := 0) hd hpos
      obtain ⟨_, rfl | ⟨hprev, _⟩⟩ := hk
      · omega
      · exact hother (by rwa [show k + 0 + 1 - 2 = k - 1 by omega])
    | succ i =>
      have hprev : d.bytes[k + i]? = some 0 := holds_zeros hd (by omega)
      exact hother (by rwa [show k + (i + 1) + 1 - 2 = k + i by omega])

/-- After a piece the next one starts. -/
theorem PieceAt.next {d : Data} {k n : Nat} (h : PieceAt d k n) (hlt : k + n < d.count) :
    Starts d (k + n) := by
  refine ⟨hlt, .inr ?_⟩
  cases h with
  | string bs hne hbs hd hn =>
    obtain ⟨hstring, hnul⟩ := holds_append.mp hd
    have hpos := List.length_pos_of_ne_nil hne
    refine ⟨?_, fun _ => ⟨by omega, ?_⟩⟩
    · rw [show k + n - 1 = k + bs.length by omega]
      exact holds_singleton.mp hnul
    · rw [show k + n - 2 = k + (bs.length - 1) by omega]
      exact holds_other hstring hbs (by omega)
  | tail bs hne hbs hd hn hend => omega
  | zeros hpos hd hend =>
    refine ⟨?_, fun hzero => absurd hzero hend⟩
    rw [show k + n - 1 = k + (n - 1) by omega]
    exact holds_zeros hd (by omega)

/-- The piece that starts at an offset is the only one. -/
theorem PieceAt.unique {d : Data} {k n n' : Nat} (h : PieceAt d k n) (hk : Starts d k)
    (h' : PieceAt d k n') : n = n' := by
  -- a shorter piece would end where the longer one goes on, and the next one starts there
  have hle : ∀ {a b}, PieceAt d k a → PieceAt d k b → a ≤ b := by
    intro a b ha hb
    by_contra hlt
    have hpos := hb.bounds.1
    have hfit := ha.bounds.2
    exact ha.inside hk (by omega) (by omega) (hb.next (by omega))
  exact Nat.le_antisymm (hle h h') (hle h' h)

/-- The bytes of a piece. -/
def CStringModel.span (m : CStringModel) : Span := Span.of m.startOffset m.length

theorem spans_pos {d : Data} {xs : List (Field CStringModel)}
    (h : ∀ x ∈ xs, PieceAt d x.value.startOffset x.value.length) :
    ∀ s ∈ xs.map (fun x => x.value.span), s.lower < s.upper := by
  intro s hs
  obtain ⟨x, hx, rfl⟩ := List.mem_map.mp hs
  have hpos := (h x hx).bounds.1
  exact Nat.lt_add_of_pos_right hpos

/-- The turns from the start of a piece cut the data into pieces, and every start is found. -/
theorem turns_pieces {d : Data} {k u : Nat} {xs : List (Field CStringModel)}
    (h : (cStringComponentLoop d).Turns k xs u) (hk : k ≤ d.count) (hstart : k < d.count → Starts d k) :
    u ≤ d.count ∧ Tiles k u (xs.map fun x => x.value.span) ∧
      (∀ x ∈ xs, PieceAt d x.value.startOffset x.value.length ∧
        x.value.content = pieceContent d x.value.startOffset x.value.length) ∧
      ∀ o, k ≤ o → o < u → ((∃ x ∈ xs, x.value.startOffset = o) ↔ Starts d o) := by
  induction h with
  | nil k => exact ⟨hk, tiles_nil, nofun, fun o hle hlt => absurd hle (Nat.not_le_of_lt hlt)⟩
  | @cons k t u x xs hm hn hrest ih =>
    have hlt : k < d.count := of_decide_eq_true hm
    obtain ⟨rfl, rfl, hpiece, hcontent⟩ := nextCString_eq_ok hn
    obtain ⟨hpos, hle⟩ := hpiece.bounds
    obtain ⟨hu, htiles, hall, hstarts⟩ := ih hle hpiece.next
    refine ⟨hu, tiles_cons htiles, ?_, ?_⟩
    · intro y hy
      rcases List.mem_cons.mp hy with rfl | hy
      · exact ⟨hpiece, hcontent⟩
      · exact hall y hy
    · intro o hko hou
      by_cases hsame : o = x.value.startOffset
      · subst hsame
        exact iff_of_true ⟨x, List.mem_cons_self, rfl⟩ (hstart hlt)
      · by_cases hin : o < x.value.startOffset + x.value.length
        · refine iff_of_false ?_ (hpiece.inside (hstart hlt) (by omega) hin)
          rintro ⟨y, hy, rfl⟩
          rcases List.mem_cons.mp hy with rfl | hy
          · exact hsame rfl
          · have hlow := (htiles.pairwise_lower (spans_pos fun y hy => (hall y hy).1)).1 _
              (List.mem_map_of_mem hy)
            rw [CStringModel.span, Span.of_lower] at hlow
            omega
        · rw [← hstarts o (by omega) hou]
          constructor
          · rintro ⟨y, hy, rfl⟩
            rcases List.mem_cons.mp hy with rfl | hy
            · exact absurd rfl hsame
            · exact ⟨y, hy, rfl⟩
          · rintro ⟨y, hy, rfl⟩
            exact ⟨y, List.mem_cons_of_mem x hy, rfl⟩

theorem lookup_eq_some_iff_mem {α β : Type} [BEq α] [LawfulBEq α] {m : List (α × β)}
    (hnodup : (m.map Prod.fst).Nodup) {a : α} {b : β} : m.lookup a = some b ↔ (a, b) ∈ m := by
  induction m with
  | nil => exact iff_of_false nofun List.not_mem_nil
  | cons p m ih =>
    obtain ⟨x, y⟩ := p
    rw [List.map_cons, List.nodup_cons] at hnodup
    rw [List.mem_cons, Prod.mk.injEq]
    by_cases hx : a = x
    · subst hx
      have hnot : (a, b) ∉ m := fun hmem => hnodup.1 (List.mem_map.mpr ⟨_, hmem, rfl⟩)
      rw [List.lookup_cons_self]
      simp only [Option.some.injEq, true_and, hnot, or_false, eq_comm]
    · have hne : (a == x) = false := beq_eq_false_iff_ne.mpr hx
      simp only [List.lookup_cons, hne, ih hnodup.2, hx, false_and, false_or]

/-- A lookup in the assignments of distinct keys to their indices, the last one first. -/
theorem lookup_mapIdx_reverse {α : Type} {f : α → Nat} {l : List α} (hnodup : (l.map f).Nodup)
    {o i : Nat} : (l.mapIdx fun index a => (f a, index)).reverse.lookup o = some i ↔
      ∃ a, l[i]? = some a ∧ f a = o := by
  have hkeys : ((l.mapIdx fun index a => (f a, index)).reverse.map Prod.fst).Nodup := by
    have hfst : (l.mapIdx fun index a => (f a, index)).map Prod.fst = l.map f := by
      refine List.ext_getElem? fun n => ?_
      simp only [List.getElem?_map, List.getElem?_mapIdx, Option.map_map]
      rfl
    rw [List.map_reverse, List.nodup_reverse, hfst]
    exact hnodup
  rw [lookup_eq_some_iff_mem hkeys, List.mem_reverse, List.mem_mapIdx]
  constructor
  · rintro ⟨j, hj, heq⟩
    obtain ⟨rfl, rfl⟩ := Prod.mk.inj heq
    exact ⟨_, List.getElem?_eq_getElem hj, rfl⟩
  · rintro ⟨a, ha, rfl⟩
    obtain ⟨hlt, rfl⟩ := List.getElem?_eq_some_iff.mp ha
    exact ⟨i, hlt, rfl⟩

/-- What `runInitializing` leaves. -/
theorem runInitializing_pieces {d : Data} {c : CStrings} (h : CStrings.runInitializing d = .ok c) :
    c.cStringOffsetIndexMap =
        (c.cStrings.mapIdx fun index x => (x.value.startOffset, index)).reverse ∧
      Tiles 0 d.count (c.cStrings.map fun x => x.value.span) ∧
      (∀ x ∈ c.cStrings, PieceAt d x.value.startOffset x.value.length ∧
        x.value.content = pieceContent d x.value.startOffset x.value.length) ∧
      ∀ o < d.count, ((∃ x ∈ c.cStrings, x.value.startOffset = o) ↔ Starts d o) := by
  unfold CStrings.runInitializing at h
  rw [bind_eq_ok] at h
  obtain ⟨⟨pieces, u⟩, hrun, h⟩ := h
  cases h
  obtain ⟨hturns, hend⟩ := Loop.run_eq_ok_iff.mp hrun
  obtain ⟨hu, htiles, hall, hstarts⟩ :=
    turns_pieces hturns (Nat.zero_le _) (fun hpos => ⟨hpos, .inl rfl⟩)
  have hcount : u = d.count := by
    have hge : ¬ u < d.count := of_decide_eq_false hend
    omega
  subst hcount
  exact ⟨rfl, htiles, hall, fun o ho => hstarts o (Nat.zero_le o) ho⟩

theorem starts_nodup {d : Data} {a b : Nat} {xs : List (Field CStringModel)}
    (htiles : Tiles a b (xs.map fun x => x.value.span))
    (hall : ∀ x ∈ xs, PieceAt d x.value.startOffset x.value.length) :
    (xs.map fun x => x.value.startOffset).Nodup := by
  have hpairs := (htiles.pairwise_lower (spans_pos hall)).2
  rw [List.pairwise_map] at hpairs
  rw [List.Nodup, List.pairwise_map]
  exact hpairs.imp fun hlt => Nat.ne_of_lt hlt

/-- **The scanner partitions its data.** It returns for every data; the pieces are not empty, follow
each other from 0 to the end, and each is a string with its NUL, a string at the end of the data or a
run of NULs that ends there or before another byte; the map has exactly their starts. -/
theorem cStrings_partition (d : Data) :
    ∃ c, CStrings.runInitializing d = .ok c ∧
      Tiles 0 d.count (c.cStrings.map fun x => x.value.span) ∧
      (∀ x ∈ c.cStrings, 0 < x.value.length ∧ PieceAt d x.value.startOffset x.value.length) ∧
      ∀ o i, c.cStringOffsetIndexMap.lookup o = some i ↔
        ∃ x, c.cStrings[i]? = some x ∧ x.value.startOffset = o := by
  obtain ⟨c, hc⟩ := cStrings_total d
  obtain ⟨hmap, htiles, hall, -⟩ := runInitializing_pieces hc
  refine ⟨c, hc, htiles, fun x hx => ⟨(hall x hx).1.bounds.1, (hall x hx).1⟩, ?_⟩
  intro o i
  rw [hmap]
  exact lookup_mapIdx_reverse (starts_nodup htiles fun x hx => (hall x hx).1)

/-! ## Lookup -/

/-- **Lookup answers where a piece starts.** -/
theorem findString_eq_ok {d : Data} {c : CStrings} (h : CStrings.runInitializing d = .ok c) (o : Nat) :
    ∃ found, c.findString o = .ok found ∧
      ((Starts d o ∧ ∃ n, PieceAt d o n ∧ found = pieceContent d o n) ∨
        (¬ Starts d o ∧ found = none)) := by
  obtain ⟨hmap, htiles, hall, hstarts⟩ := runInitializing_pieces h
  have hlookup : ∀ i, c.cStringOffsetIndexMap.lookup o = some i ↔
      ∃ x, c.cStrings[i]? = some x ∧ x.value.startOffset = o := by
    intro i
    rw [hmap]
    exact lookup_mapIdx_reverse (starts_nodup htiles fun x hx => (hall x hx).1)
  unfold CStrings.findString
  by_cases hs : Starts d o
  · obtain ⟨x, hx, hxo⟩ := (hstarts o hs.1).mpr hs
    obtain ⟨i, hi⟩ := List.getElem?_of_mem hx
    have hfound := (hlookup i).mpr ⟨x, hi, hxo⟩
    obtain ⟨hpiece, hcontent⟩ := hall x hx
    rw [hxo] at hpiece hcontent
    refine ⟨x.value.content, ?_, .inl ⟨hs, _, hpiece, hcontent⟩⟩
    simp only [hfound, hi]
  · refine ⟨none, ?_, .inr ⟨hs, rfl⟩⟩
    cases hi : c.cStringOffsetIndexMap.lookup o with
    | none => rfl
    | some i =>
      obtain ⟨x, hx, hxo⟩ := (hlookup i).mp hi
      have hmem := List.mem_of_getElem? hx
      have hbounds := (hall x hmem).1.bounds
      exact absurd ((hstarts o (by omega)).mp ⟨x, hmem, hxo⟩) hs

/-- The piece that starts at `o` reads as `s`. -/
def PieceReads (d : Data) (o : Nat) (s : String) : Prop :=
  Starts d o ∧ ∃ n, PieceAt d o n ∧ pieceContent d o n = some s

/-- Lookup gives the piece that starts at the offset, if there is one that reads as a string. -/
theorem findString_found {d : Data} {c : CStrings} (h : CStrings.runInitializing d = .ok c) (o : Nat) :
    ∃ found, c.findString o = .ok found ∧ (∀ s, found = some s → PieceReads d o s) ∧
      (found = none → ∀ s, ¬ PieceReads d o s) := by
  obtain ⟨found, hfound, ⟨hs, n, hpiece, rfl⟩ | ⟨hs, rfl⟩⟩ := findString_eq_ok h o
  · refine ⟨_, hfound, fun s hread => ⟨hs, n, hpiece, hread⟩, ?_⟩
    rintro hnone s ⟨-, n', hpiece', hread⟩
    rw [hpiece'.unique hs hpiece, hnone] at hread
    cases hread
  · exact ⟨none, hfound, nofun, fun _ s hread => hs hread.1⟩

/-- The name of a symbol of the given type whose name is at `o` of the string table. -/
def NamedBy (strings : Data) (type : SymbolType) (o : Nat) (name : String) : Prop :=
  PieceReads strings o name ∨
    ((∃ stab, type = .stab stab) ∧ (∀ s, ¬ PieceReads strings o s) ∧ name = "Not found")

/-- **The name of a symbol** is the piece of the string table that starts at its offset. -/
theorem symbolTableEntry_name_eq_ok {d : Data} {c : CStrings} {v : MachoView}
    (hc : CStrings.runInitializing d = .ok c) (hv : v.stringTable = some c) {type : SymbolType}
    {o : Nat} {name : String} (h : SymbolTableEntry.name type v o = .ok name) : NamedBy d type o name := by
  obtain ⟨found, hfound, hsome, hnone⟩ := findString_found hc o
  unfold SymbolTableEntry.name MachoView.findString at h
  rw [hv] at h
  simp only [hfound, ok_bind] at h
  cases hf : found with
  | some s =>
    have hread := hsome s hf
    rw [hf] at h
    cases type <;> (cases h; exact .inl hread)
  | none =>
    rw [hf] at h
    cases type with
    | stab type =>
      cases h
      exact .inr ⟨⟨type, rfl⟩, hnone hf, rfl⟩
    | _ => cases h

/-- At `o` the component gives the C string `s`: by offset, by address, and to a symbol that has its
name there. -/
structure ReadsCString (d : Data) (c : CStrings) (o : Nat) (s : String) : Prop where
  offset : c.findString o = .ok (some s)
  address : ∀ base : UInt64, base.toNat + d.count < 2 ^ 64 →
    c.findStringAt base d.count (base + UInt64.ofNat o) = .ok (some s)
  symbol : ∀ (is64Bit : Bool) (v : MachoView) (data : Data) (type : SymbolType),
    v.stringTable = some c → data.count = modelSize SymbolTableEntry is64Bit →
    (data.uint32At 0).value.toNat = o → SymbolType.init (data.uint8At 4).value = .ok type →
    ∃ e, SymbolTableEntry.init is64Bit v data = .ok e

theorem readsCString_of_found {d : Data} {c : CStrings} {o : Nat} {s : String} (ho : o < d.count)
    (hfound : c.findString o = .ok (some s)) : ReadsCString d c o s := by
  refine ⟨hfound, ?_, ?_⟩
  · intro base hbase
    have hoffset : (UInt64.ofNat o).toNat = o := by
      rw [UInt64.toNat_ofNat', Nat.mod_eq_of_lt (by omega)]
    have hsum : (base + UInt64.ofNat o).toNat = base.toNat + o := by
      rw [UInt64.toNat_add, hoffset, Nat.mod_eq_of_lt (by omega)]
    unfold CStrings.findStringAt
    rw [hsum, if_neg (by omega), if_neg (by omega), Nat.add_sub_cancel_left]
    exact hfound
  · intro is64Bit v data type hv hcount hindex htype
    have hsize : data.count = 8 + addressSize is64Bit := by
      rw [hcount]
      cases is64Bit <;> rfl
    have hname : ∃ name, SymbolTableEntry.name type v o = .ok name := by
      unfold SymbolTableEntry.name MachoView.findString
      rw [hv]
      simp only [hfound, ok_bind]
      cases type <;> exact ⟨_, rfl⟩
    obtain ⟨name, hname⟩ := hname
    exact ⟨_, symbolTableEntry_init_eq_ok.mpr
      ⟨Nat.le_of_eq hsize.symm, type, name, htype, hindex ▸ hname, rfl⟩⟩

/-- **Where lookup gives the C string.** The bytes from `o` up to the first NUL are the string `s`.
Lookup gives `s` exactly where a run of NULs starts, so for the empty name only: an offset inside a
string or a run is not found, and what is found for a string includes its NUL. -/
theorem findString_reads_iff {d : Data} {c : CStrings} {o : Nat} {s : String}
    (hc : CStrings.runInitializing d = .ok c) (hnul : '\x00' ∉ s.toList)
    (hs : d.Holds o (utf8 s ++ [0])) :
    ReadsCString d c o s ↔ d.bytes[o]? = some 0 ∧
      (o = 0 ∨ (2 ≤ o ∧ d.bytes[o - 1]? = some 0 ∧ d.bytes[o - 2]? ≠ some 0)) := by
  have hle := hs.1
  rw [List.length_append, List.length_singleton] at hle
  have ho : o < d.count := by omega
  obtain ⟨found, hfound, hcase⟩ := findString_eq_ok hc o
  constructor
  · intro hreads
    have hsome := hreads.offset
    rw [hfound, Except.ok.injEq] at hsome
    subst hsome
    rcases hcase with ⟨hstarts, n, hpiece, hcontent⟩ | ⟨_, hnone⟩
    · have hzero : d.bytes[o]? = some 0 := by
        by_contra hother
        rw [pieceContent, if_neg hother] at hcontent
        have hbytes : (d.window o n).bytes = utf8 s := utf8String_eq_some.mp hcontent.symm
        cases hpiece with
        | string bs hne hbs hd hn =>
          have hd' := hd.2
          rw [List.length_append, List.length_singleton, ← hn, hbytes] at hd'
          refine zero_not_mem_utf8 hnul ?_
          rw [hd']
          exact List.mem_append_right bs List.mem_cons_self
        | tail bs hne hbs hd hn hend =>
          have hlength := d.window_count (Nat.le_of_eq hend)
          rw [Data.count, hbytes] at hlength
          omega
        | zeros hpos hd hend => exact hother (holds_zeros (i := 0) hd hpos)
      refine ⟨hzero, ?_⟩
      obtain ⟨_, rfl | ⟨hbefore, hat⟩⟩ := hstarts
      · exact .inl rfl
      · obtain ⟨hge, hother⟩ := hat hzero
        exact .inr ⟨hge, hbefore, hother⟩
    · cases hnone
  · rintro ⟨hzero, hrun⟩
    have hempty : s = "" := by
      by_contra hne
      have hpos := utf8_length_pos hne
      refine holds_other (i := 0) (holds_append.mp hs).1 (zero_not_mem_utf8 hnul) hpos hzero
    have hstarts : Starts d o := by
      refine ⟨ho, ?_⟩
      rcases hrun with rfl | ⟨hge, hbefore, hother⟩
      · exact .inl rfl
      · exact .inr ⟨hbefore, fun _ => ⟨hge, hother⟩⟩
    rcases hcase with ⟨_, n, _, rfl⟩ | ⟨hnot, _⟩
    · rw [pieceContent, if_pos hzero, ← hempty] at hfound
      exact readsCString_of_found ho hfound
    · exact absurd hstarts hnot

/-- A string table that starts with an empty name. -/
def emptyNameFirst : Data := ⟨0, [0, 0x66, 0]⟩

theorem findString_reads_iff_emptyNameFirst :
    ∃ c, CStrings.runInitializing emptyNameFirst = .ok c ∧ ReadsCString emptyNameFirst c 0 "" := by
  obtain ⟨c, hc⟩ := cStrings_total emptyNameFirst
  exact ⟨c, hc, (findString_reads_iff hc (by decide) (holds_singleton.mpr rfl)).mpr
    ⟨rfl, .inl rfl⟩⟩

/-- The string `ab`. -/
def sharedSuffix : Data := ⟨0, [0x61, 0x62, 0]⟩

/-- The string `b`, which shares the end of `ab`, is not found, and `ab` is found with its NUL. -/
theorem sharedSuffix_not_found :
    ∃ c, CStrings.runInitializing sharedSuffix = .ok c ∧
      sharedSuffix.Holds 0 (utf8 "ab" ++ [0]) ∧ c.findString 0 = .ok (some "ab\x00") ∧
      sharedSuffix.Holds 1 (utf8 "b" ++ [0]) ∧ c.findString 1 = .ok none ∧
      ¬ ReadsCString sharedSuffix c 0 "ab" ∧ ¬ ReadsCString sharedSuffix c 1 "b" := by
  obtain ⟨c, hc⟩ := cStrings_total sharedSuffix
  have hstart : (CStrings.runInitializing sharedSuffix >>= fun c => c.findString 0) =
      .ok (some "ab\x00") := by decide +kernel
  have hinside : (CStrings.runInitializing sharedSuffix >>= fun c => c.findString 1) =
      .ok none := by decide +kernel
  rw [hc, ok_bind] at hstart hinside
  refine ⟨c, hc, holds_of_eq (by decide +kernel), hstart,
    ⟨by decide +kernel, by decide +kernel⟩, hinside, ?_, ?_⟩
  · intro h
    have hoffset := h.offset
    rw [hstart] at hoffset
    exact absurd hoffset (by decide +kernel)
  · intro h
    have hoffset := h.offset
    rw [hinside] at hoffset
    cases hoffset

end Mocha
