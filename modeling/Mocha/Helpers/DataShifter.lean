import Mocha.Helpers.Data

/-!
# The cursor (`Helpers/DataShifter.swift`)

`DataShifter` reads a `Data` from front to back. `shifted` is signed: `skip` adds any number to it
without a check, and an archive header can make that number negative. `shift` is guarded, `back`
is guarded against moving before the start.

`DataShifter.cursor d k` is the cursor at the natural offset `k`. The lemmas state what each
operation does to it; every decoder that never skips backwards is evaluated through them.
-/

namespace Mocha

open Lib

/-- `Straddle`. -/
inductive Straddle where
  | word
  | doubleWords
  | quadWords
  | rawNumber (n : Int)

/-- `Straddle.raw`. -/
def Straddle.raw : Straddle → Int
  | .word => 2
  | .doubleWords => 4
  | .quadWords => 8
  | .rawNumber n => n

/-- `DataShifter`: the data and the number of bytes passed. -/
structure DataShifter where
  data : Data
  shifted : Int

namespace DataShifter

/-- `DataShifter(data)`. -/
def init (d : Data) : DataShifter := ⟨d, 0⟩

/-- `shiftable`. -/
def shiftable (s : DataShifter) : Bool := decide (s.shifted < s.data.count)

/-- `shift(_:)`. A negative `shifted` passes the two guards and then indexes before the data. -/
def shift (s : DataShifter) (straddle : Straddle) : Run (Data × DataShifter) := do
  let num := straddle.raw
  guardElse (decide (0 < num))
  guardElse (decide (s.shifted + num ≤ s.data.count))
  if s.shifted < 0 then .error .outOfBounds
  let selected ← s.data.subSequence s.shifted.toNat num.toNat
  return (selected, ⟨s.data, s.shifted + num⟩)

/-- `skip(_:)`. -/
def skip (s : DataShifter) (straddle : Straddle) : DataShifter :=
  ⟨s.data, s.shifted + straddle.raw⟩

/-- `back(_:)`. -/
def back (s : DataShifter) (straddle : Straddle) : Run DataShifter := do
  guardElse (decide (straddle.raw ≤ s.shifted))
  return ⟨s.data, s.shifted - straddle.raw⟩

/-- `shiftUInt64()`. -/
def shiftUInt64 (s : DataShifter) : Run (Field UInt64 × DataShifter) := do
  let (d, s) ← s.shift .quadWords
  return (← d.uint64, s)

/-- `shiftUInt32()`. -/
def shiftUInt32 (s : DataShifter) : Run (Field UInt32 × DataShifter) := do
  let (d, s) ← s.shift .doubleWords
  return (← d.uint32, s)

/-- `shiftInt32()`. -/
def shiftInt32 (s : DataShifter) : Run (Field Int32 × DataShifter) := do
  let (d, s) ← s.shift .doubleWords
  return (← d.int32, s)

/-- `shiftUInt16()`. -/
def shiftUInt16 (s : DataShifter) : Run (Field UInt16 × DataShifter) := do
  let (d, s) ← s.shift .word
  return (← d.uint16, s)

/-- `shiftUInt8()`. -/
def shiftUInt8 (s : DataShifter) : Run (Field UInt8 × DataShifter) := do
  let (d, s) ← s.shift (.rawNumber 1)
  return (← d.uint8, s)

/-- `is64Bit ? shiftUInt64() : UInt64(shiftUInt32())`, which several records use for an address or
a size. -/
def shiftAddress (is64Bit : Bool) (s : DataShifter) : Run (Field UInt64 × DataShifter) :=
  if is64Bit then s.shiftUInt64
  else do
    let (x, s) ← s.shiftUInt32
    return (x.map UInt32.toUInt64, s)

/-- A returned `shift` moved the cursor forward. -/
theorem shift_forward {s t : DataShifter} {d : Data} {st : Straddle}
    (h : s.shift st = .ok (d, t)) :
    t.data = s.data ∧ t.shifted = s.shifted + st.raw ∧ 0 < st.raw ∧
      s.shifted + st.raw ≤ s.data.count := by
  unfold shift at h
  simp only [bind_eq_ok, guardElse_eq_ok, decide_eq_true_eq] at h
  obtain ⟨_, hpos, _, hle, h⟩ := h
  split at h
  · cases h
  · simp only [pure_eq_ok, bind_eq_ok] at h
    obtain ⟨e, -, he⟩ := h
    cases he
    exact ⟨rfl, rfl, hpos, hle⟩

theorem shiftUInt32_forward {s t : DataShifter} {x : Field UInt32}
    (h : s.shiftUInt32 = .ok (x, t)) : t.data = s.data ∧ t.shifted = s.shifted + 4 := by
  unfold shiftUInt32 at h
  simp only [bind_eq_ok] at h
  obtain ⟨⟨d, u⟩, hs, _, _, he⟩ := h
  cases he
  obtain ⟨hd, hshifted, -, -⟩ := shift_forward hs
  exact ⟨hd, hshifted⟩

theorem back_eq_ok {s t : DataShifter} {st : Straddle} (h : s.back st = .ok t) :
    t = ⟨s.data, s.shifted - st.raw⟩ := by
  unfold back at h
  simp only [bind_eq_ok] at h
  obtain ⟨_, _, he⟩ := h
  cases he
  rfl

/-- The bytes left, which bounds the turns of a loop that shifts. -/
def left (s : DataShifter) : Nat := (s.data.count - s.shifted).toNat

theorem shift_left_lt {s t : DataShifter} {d : Data} {st : Straddle}
    (h : s.shift st = .ok (d, t)) : t.left < s.left := by
  obtain ⟨hd, hs, hpos, hle⟩ := shift_forward h
  unfold left
  rw [hd, hs]
  omega

/-! ## The cursor at a natural offset -/

/-- The cursor of `d` after `k` bytes. -/
def cursor (d : Data) (k : Nat) : DataShifter := ⟨d, k⟩

theorem init_eq (d : Data) : init d = cursor d 0 := rfl

theorem shiftable_cursor (d : Data) (k : Nat) :
    (cursor d k).shiftable = decide (k < d.count) := by
  simp [shiftable, cursor]

theorem not_shiftable_end (d : Data) : (cursor d d.count).shiftable = false := by
  rw [shiftable_cursor, decide_eq_false_iff_not]
  exact Nat.lt_irrefl _

theorem skip_cursor (d : Data) (k n : Nat) {st : Straddle} (hst : st.raw = n) :
    (cursor d k).skip st = cursor d (k + n) := by
  simp [skip, cursor, hst]

theorem skip_quadWords (d : Data) (k : Nat) :
    (cursor d k).skip .quadWords = cursor d (k + 8) :=
  skip_cursor d k 8 rfl

theorem back_quadWords (d : Data) (k : Nat) :
    (cursor d (k + 8)).back .quadWords = .ok (cursor d k) := by
  unfold back cursor
  have : (8 : Int) ≤ ((k + 8 : Nat) : Int) := by omega
  simp only [Straddle.raw, this, decide_true, guardElse, if_true, ok_bind, pure_eq_ok]
  congr 2
  omega

/-- **`shift` from a natural offset**: it returns exactly when the requested bytes are there, and
they are the next slice. -/
theorem shift_cursor {d : Data} {k n : Nat} {st : Straddle} (hst : st.raw = n)
    {r : Data × DataShifter} :
    (cursor d k).shift st = .ok r ↔
      0 < n ∧ k + n ≤ d.count ∧ r = (d.window k n, cursor d (k + n)) := by
  unfold shift
  simp only [hst, bind_eq_ok, guardElse_eq_ok, decide_eq_true_eq, cursor]
  constructor
  · rintro ⟨_, hn, _, hle, h⟩
    rw [if_neg (by omega)] at h
    simp only [pure_eq_ok, bind_eq_ok, Data.subSequence_eq_ok, Int.toNat_natCast] at h
    obtain ⟨e, ⟨_, hle', rfl⟩, hr⟩ := h
    refine ⟨by omega, hle', ?_⟩
    cases hr
    simp
  · rintro ⟨hn, hle, rfl⟩
    refine ⟨(), by omega, (), by omega, ?_⟩
    rw [if_neg (by omega)]
    simp only [pure_eq_ok, ok_bind, Int.toNat_natCast, Data.subSequence_ok hn hle]
    simp

theorem shift_ok {d : Data} {k n : Nat} {st : Straddle} (hst : st.raw = n) (hn : 0 < n)
    (hle : k + n ≤ d.count) : (cursor d k).shift st = .ok (d.window k n, cursor d (k + n)) :=
  (shift_cursor hst).mpr ⟨hn, hle, rfl⟩

theorem shift_rawNumber {d : Data} {k n : Nat} {r : Data × DataShifter} :
    (cursor d k).shift (.rawNumber n) = .ok r ↔
      0 < n ∧ k + n ≤ d.count ∧ r = (d.window k n, cursor d (k + n)) :=
  shift_cursor rfl

/-- The width of `shiftAddress`. -/
def addressSize (is64Bit : Bool) : Nat := if is64Bit then 8 else 4

/-- What `shiftAddress` reads at offset `k`. -/
def addressAt (is64Bit : Bool) (d : Data) (k : Nat) : Field UInt64 :=
  if is64Bit then d.uint64At k else (d.uint32At k).map UInt32.toUInt64

@[simp] theorem addressAt_span (is64Bit : Bool) (d : Data) (k : Nat) :
    (addressAt is64Bit d k).span = Span.of (d.startIndex + k) (addressSize is64Bit) := by
  cases is64Bit <;> rfl

theorem addressAt_window {is64Bit : Bool} (d : Data) {k n i : Nat} (h : i + addressSize is64Bit ≤ n) :
    addressAt is64Bit (d.window k n) i = addressAt is64Bit d (k + i) := by
  cases is64Bit with
  | true => exact d.uint64At_window h
  | false => exact congrArg (Field.map UInt32.toUInt64) (d.uint32At_window h)

section Reads

variable {β : Type} {d : Data} {k : Nat} {b : β}

theorem shift_bind {n : Nat} {st : Straddle} (hst : st.raw = n) {f : Data × DataShifter → Run β} :
    ((cursor d k).shift st >>= f) = .ok b ↔
      0 < n ∧ k + n ≤ d.count ∧ f (d.window k n, cursor d (k + n)) = .ok b := by
  rw [bind_eq_ok]
  constructor
  · rintro ⟨r, hr, h⟩
    obtain ⟨hn, hle, rfl⟩ := (shift_cursor hst).mp hr
    exact ⟨hn, hle, h⟩
  · rintro ⟨hn, hle, h⟩
    exact ⟨_, (shift_cursor hst).mpr ⟨hn, hle, rfl⟩, h⟩

theorem shift_rawNumber_bind {n : Nat} {f : Data × DataShifter → Run β} :
    ((cursor d k).shift (.rawNumber n) >>= f) = .ok b ↔
      0 < n ∧ k + n ≤ d.count ∧ f (d.window k n, cursor d (k + n)) = .ok b :=
  shift_bind rfl

/-- Shift `n` bytes, then read them: the shape of `shiftUInt8()` … `shiftUInt64()`. -/
theorem shift_read_eq_ok {α : Type} {n : Nat} {st : Straddle} (hst : st.raw = n) (hn : 0 < n)
    {read : Data → Run α} {a : α} (hread : k + n ≤ d.count → read (d.window k n) = .ok a)
    {r : α × DataShifter} :
    ((cursor d k).shift st >>= fun x => read x.1 >>= fun v => pure (v, x.2)) = .ok r ↔
      k + n ≤ d.count ∧ r = (a, cursor d (k + n)) := by
  rw [shift_bind hst]
  constructor
  · rintro ⟨-, hle, h⟩
    rw [hread hle] at h
    cases h
    exact ⟨hle, rfl⟩
  · rintro ⟨hle, rfl⟩
    refine ⟨hn, hle, ?_⟩
    rw [hread hle]
    rfl

theorem shiftUInt8_eq_ok {r : Field UInt8 × DataShifter} :
    (cursor d k).shiftUInt8 = .ok r ↔ k + 1 ≤ d.count ∧ r = (d.uint8At k, cursor d (k + 1)) :=
  shift_read_eq_ok (n := 1) rfl (by decide) Data.uint8_window

theorem shiftUInt16_eq_ok {r : Field UInt16 × DataShifter} :
    (cursor d k).shiftUInt16 = .ok r ↔
      k + 2 ≤ d.count ∧ r = (d.uint16At k, cursor d (k + 2)) :=
  shift_read_eq_ok (n := 2) rfl (by decide) Data.uint16_window

theorem shiftUInt32_eq_ok {r : Field UInt32 × DataShifter} :
    (cursor d k).shiftUInt32 = .ok r ↔
      k + 4 ≤ d.count ∧ r = (d.uint32At k, cursor d (k + 4)) :=
  shift_read_eq_ok (n := 4) rfl (by decide) Data.uint32_window

theorem shiftInt32_eq_ok {r : Field Int32 × DataShifter} :
    (cursor d k).shiftInt32 = .ok r ↔
      k + 4 ≤ d.count ∧ r = (d.int32At k, cursor d (k + 4)) :=
  shift_read_eq_ok (n := 4) rfl (by decide) Data.int32_window

theorem shiftUInt64_eq_ok {r : Field UInt64 × DataShifter} :
    (cursor d k).shiftUInt64 = .ok r ↔
      k + 8 ≤ d.count ∧ r = (d.uint64At k, cursor d (k + 8)) :=
  shift_read_eq_ok (n := 8) rfl (by decide) Data.uint64_window

theorem shiftAddress_eq_ok {is64Bit : Bool} {r : Field UInt64 × DataShifter} :
    (cursor d k).shiftAddress is64Bit = .ok r ↔
      k + addressSize is64Bit ≤ d.count ∧
        r = (addressAt is64Bit d k, cursor d (k + addressSize is64Bit)) := by
  cases is64Bit with
  | true => exact shiftUInt64_eq_ok
  | false =>
    simp only [shiftAddress, Bool.false_eq_true, if_false, bind_eq_ok, shiftUInt32_eq_ok,
      addressSize, addressAt, pure_eq_ok, Except.ok.injEq]
    constructor
    · rintro ⟨_, ⟨hle, rfl⟩, rfl⟩
      exact ⟨hle, rfl⟩
    · rintro ⟨hle, rfl⟩
      exact ⟨_, ⟨hle, rfl⟩, rfl⟩

theorem shiftUInt8_bind {f : Field UInt8 × DataShifter → Run β} :
    ((cursor d k).shiftUInt8 >>= f) = .ok b ↔
      k + 1 ≤ d.count ∧ f (d.uint8At k, cursor d (k + 1)) = .ok b :=
  bind_of_eq_ok fun _ => shiftUInt8_eq_ok

theorem shiftUInt16_bind {f : Field UInt16 × DataShifter → Run β} :
    ((cursor d k).shiftUInt16 >>= f) = .ok b ↔
      k + 2 ≤ d.count ∧ f (d.uint16At k, cursor d (k + 2)) = .ok b :=
  bind_of_eq_ok fun _ => shiftUInt16_eq_ok

theorem shiftUInt32_bind {f : Field UInt32 × DataShifter → Run β} :
    ((cursor d k).shiftUInt32 >>= f) = .ok b ↔
      k + 4 ≤ d.count ∧ f (d.uint32At k, cursor d (k + 4)) = .ok b :=
  bind_of_eq_ok fun _ => shiftUInt32_eq_ok

theorem shiftInt32_bind {f : Field Int32 × DataShifter → Run β} :
    ((cursor d k).shiftInt32 >>= f) = .ok b ↔
      k + 4 ≤ d.count ∧ f (d.int32At k, cursor d (k + 4)) = .ok b :=
  bind_of_eq_ok fun _ => shiftInt32_eq_ok

theorem shiftAddress_bind {is64Bit : Bool} {f : Field UInt64 × DataShifter → Run β} :
    ((cursor d k).shiftAddress is64Bit >>= f) = .ok b ↔
      k + addressSize is64Bit ≤ d.count ∧
        f (addressAt is64Bit d k, cursor d (k + addressSize is64Bit)) = .ok b :=
  bind_of_eq_ok fun _ => shiftAddress_eq_ok

end Reads

end DataShifter

end Mocha
