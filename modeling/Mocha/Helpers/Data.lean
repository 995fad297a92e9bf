import Mocha.Lib.Endian
import Mocha.Lib.Loop
import Mocha.Lib.Tiling

/-!
# `Data` slices and fixed-width reads (`Helpers/Extensions.swift`)

A Swift `Data` is a byte collection whose indices need not start at `0`: a slice keeps the indices
of the collection it was cut from, and `startIndex` is its first one. `MachoComponent` never stores
a file offset; it reads it off `data.startIndex`, so `startIndex` is part of the model.

* `Run` is a computation that returns or ends the process (`Trap`): `fatalError()`, an index or a
  range outside a collection, an arithmetic overflow, a forced `nil`, a recursion deeper than the
  stack. A trap cannot be caught.
* `Data.subSequence`, `Data.subSequenceFrom` are the two slicing helpers, with their guards in
  order. Their arguments are natural numbers: every caller passes a converted `UInt32`/`UInt64`, a
  literal or a checked difference (`DataShifter` keeps the one signed cursor).
* `Data.uint8` … `Data.uint64` are `UInt8` … `UInt64` of the extension: the size guard, then the
  bytes in the host's little-endian order.

A value read from bytes is returned as a `Field`: the value and the file interval it was read
from. The source drops the interval and recomputes it later from byte counts; the model keeps it
beside the value, where nothing but the statements about ranges looks at it.
-/

namespace Mocha

open Lib

/-- Why a process ended. -/
inductive Trap where
  /-- `fatalError()` -/
  | fatalError
  /-- an index or a range outside a collection -/
  | outOfBounds
  /-- an arithmetic operation or an integer conversion out of range -/
  | overflow
  /-- `!` on `nil` -/
  | nilUnwrap
  /-- a recursion deeper than the stack -/
  | stackOverflow
  deriving DecidableEq, Repr

/-- A computation that returns or traps. -/
abbrev Run (α : Type) := Except Trap α

/-- `fatalError()`. -/
def fatalError {α : Type} : Run α := .error .fatalError

/-- `guard c else { fatalError() }`. -/
def guardElse (c : Bool) : Run Unit := if c then .ok () else fatalError

/-- `o!`. -/
def unwrap {α : Type} : Option α → Run α
  | some a => .ok a
  | none => .error .nilUnwrap

/-- `guard let a = o else { fatalError() }`. -/
def guardLet {α : Type} : Option α → Run α
  | some a => .ok a
  | none => fatalError

@[simp] theorem guardElse_eq_ok {c : Bool} {u : Unit} : guardElse c = .ok u ↔ c = true := by
  cases c <;> simp [guardElse, fatalError]

@[simp] theorem unwrap_eq_ok {α : Type} {o : Option α} {a : α} :
    unwrap o = .ok a ↔ o = some a := by
  cases o <;> simp [unwrap]

@[simp] theorem guardLet_eq_ok {α : Type} {o : Option α} {a : α} :
    guardLet o = .ok a ↔ o = some a := by
  cases o <;> simp [guardLet, fatalError]

theorem unwrap_bind {α β : Type} {o : Option α} {f : α → Run β} {b : β} :
    (unwrap o >>= f) = .ok b ↔ ∃ a, o = some a ∧ f a = .ok b := by
  rw [bind_eq_ok]
  simp only [unwrap_eq_ok]

theorem guardLet_bind {α β : Type} {o : Option α} {f : α → Run β} {b : β} :
    (guardLet o >>= f) = .ok b ↔ ∃ a, o = some a ∧ f a = .ok b := by
  rw [bind_eq_ok]
  simp only [guardLet_eq_ok]

theorem guardElse_bind {β : Type} {c : Bool} {f : Unit → Run β} {b : β} :
    (guardElse c >>= f) = .ok b ↔ c = true ∧ f () = .ok b := by
  rw [bind_eq_ok]
  constructor
  · rintro ⟨_, hc, h⟩
    exact ⟨guardElse_eq_ok.mp hc, h⟩
  · rintro ⟨hc, h⟩
    exact ⟨(), guardElse_eq_ok.mpr hc, h⟩

/-- Of two bounds on one length the larger one is kept. -/
theorem le_absorb {a b n : Nat} {p : Prop} (h : a ≤ b) : (a ≤ n ∧ b ≤ n ∧ p) ↔ b ≤ n ∧ p :=
  ⟨fun hp => hp.2, fun hp => ⟨Nat.le_trans h hp.1, hp⟩⟩

/-- A value and the bytes of the file it was read from. -/
structure Field (α : Type) where
  value : α
  span : Span
  deriving DecidableEq, Repr

/-- Another reading of the same bytes. -/
def Field.map {α β : Type} (f : α → β) (x : Field α) : Field β := ⟨f x.value, x.span⟩

@[simp] theorem Field.map_value {α β : Type} (f : α → β) (x : Field α) :
    (x.map f).value = f x.value := rfl

@[simp] theorem Field.map_span {α β : Type} (f : α → β) (x : Field α) :
    (x.map f).span = x.span := rfl

/-- A Swift `Data`: its bytes and the index of the first one. -/
structure Data where
  startIndex : Nat
  bytes : List UInt8
  deriving DecidableEq, Repr

namespace Data

/-- `count`. -/
def count (d : Data) : Nat := d.bytes.length

/-- `endIndex`. -/
def endIndex (d : Data) : Nat := d.startIndex + d.count

/-- The file bytes the slice holds. -/
def span (d : Data) : Span := Span.of d.startIndex d.count

/-- `Data(d)`: a copy with indices from `0`. -/
def rebased (d : Data) : Data := ⟨0, d.bytes⟩

/-- `d.starts(with: magic)`. -/
def starts (d : Data) (magic : List UInt8) : Bool := magic.isPrefixOf d.bytes

/-- The `n` bytes from offset `k` on, as a slice. -/
def window (d : Data) (k n : Nat) : Data := ⟨d.startIndex + k, (d.bytes.drop k).take n⟩

/-- `d[i]`: the byte at the index `i`, counted as `d` counts. -/
def byteAt (d : Data) (i : Nat) : Run (Field UInt8) :=
  if d.startIndex ≤ i then
    match d.bytes[i - d.startIndex]? with
    | some b => .ok ⟨b, Span.of i 1⟩
    | none => .error .outOfBounds
  else .error .outOfBounds

/-- `d[lo..<hi]`, for indices `lo`, `hi` of `d`. -/
def slice (d : Data) (lo hi : Nat) : Run Data :=
  if lo ≤ hi ∧ d.startIndex ≤ lo ∧ hi ≤ d.endIndex then
    .ok (d.window (lo - d.startIndex) (hi - lo))
  else .error .outOfBounds

/-- `subSequence(from:)`. -/
def subSequenceFrom (d : Data) (start : Nat) : Run Data := do
  guardElse (decide (start < d.count))
  d.slice (d.startIndex + start) d.endIndex

/-- `subSequence(from:count:allowZeroLength:)`. -/
def subSequenceAllowing (d : Data) (allowZeroLength : Bool) (start count : Nat) : Run Data := do
  guardElse (!(!allowZeroLength && count == 0))
  guardElse (decide (start + count ≤ d.count))
  d.slice (d.startIndex + start) (d.startIndex + start + count)

/-- `subSequence(from:count:)`, with `allowZeroLength` at its default. -/
def subSequence (d : Data) (start count : Nat) : Run Data :=
  d.subSequenceAllowing false start count

/-- `cast(to:)` for an integer type of `size` bytes, before the conversion to it. -/
def cast (d : Data) (size : Nat) : Run (Field Nat) := do
  guardElse (d.count == size)
  return ⟨leNat d.bytes, d.span⟩

/-- `data.UInt8`. -/
def uint8 (d : Data) : Run (Field UInt8) := do return (← d.cast 1).map UInt8.ofNat

/-- `data.UInt16`. -/
def uint16 (d : Data) : Run (Field UInt16) := do return (← d.cast 2).map UInt16.ofNat

/-- `data.UInt32`. -/
def uint32 (d : Data) : Run (Field UInt32) := do return (← d.cast 4).map UInt32.ofNat

/-- `data.Int32`. -/
def int32 (d : Data) : Run (Field Int32) := do return (← d.cast 4).map Int32.ofNat

/-- `data.UInt64`. -/
def uint64 (d : Data) : Run (Field UInt64) := do return (← d.cast 8).map UInt64.ofNat

/-! ## What the slices and the reads return -/

/-- The `n`-byte number at offset `k`. -/
def numAt (d : Data) (k n : Nat) : Field Nat :=
  ⟨leNat (d.window k n).bytes, Span.of (d.startIndex + k) n⟩

/-- The `UInt8` at offset `k`. -/
def uint8At (d : Data) (k : Nat) : Field UInt8 := (d.numAt k 1).map UInt8.ofNat

/-- The `UInt16` at offset `k`. -/
def uint16At (d : Data) (k : Nat) : Field UInt16 := (d.numAt k 2).map UInt16.ofNat

/-- The `UInt32` at offset `k`. -/
def uint32At (d : Data) (k : Nat) : Field UInt32 := (d.numAt k 4).map UInt32.ofNat

/-- The `Int32` at offset `k`. -/
def int32At (d : Data) (k : Nat) : Field Int32 := (d.numAt k 4).map Int32.ofNat

/-- The `UInt64` at offset `k`. -/
def uint64At (d : Data) (k : Nat) : Field UInt64 := (d.numAt k 8).map UInt64.ofNat

@[simp] theorem uint8At_span (d : Data) (k : Nat) :
    (d.uint8At k).span = Span.of (d.startIndex + k) 1 := rfl

@[simp] theorem uint16At_span (d : Data) (k : Nat) :
    (d.uint16At k).span = Span.of (d.startIndex + k) 2 := rfl

@[simp] theorem uint32At_span (d : Data) (k : Nat) :
    (d.uint32At k).span = Span.of (d.startIndex + k) 4 := rfl

@[simp] theorem int32At_span (d : Data) (k : Nat) :
    (d.int32At k).span = Span.of (d.startIndex + k) 4 := rfl

@[simp] theorem uint64At_span (d : Data) (k : Nat) :
    (d.uint64At k).span = Span.of (d.startIndex + k) 8 := rfl

@[simp] theorem count_mk (s : Nat) (bs : List UInt8) : (Data.mk s bs).count = bs.length := rfl

@[simp] theorem window_startIndex (d : Data) (k n : Nat) :
    (d.window k n).startIndex = d.startIndex + k := rfl

theorem window_count (d : Data) {k n : Nat} (h : k + n ≤ d.count) : (d.window k n).count = n := by
  unfold count at h
  simp only [window, count, List.length_take, List.length_drop]
  omega

theorem window_span (d : Data) {k n : Nat} (h : k + n ≤ d.count) :
    (d.window k n).span = Span.of (d.startIndex + k) n := by
  unfold span
  rw [window_count d h, window_startIndex]

/-- A slice of a slice is a slice of the whole. -/
theorem window_window (d : Data) {k n i m : Nat} (h : i + m ≤ n) :
    (d.window k n).window i m = d.window (k + i) m := by
  unfold window
  rw [List.drop_take, List.take_take, List.drop_drop, Nat.min_eq_left (by omega), Nat.add_assoc]

/-- A number in a slice is a number of the whole. -/
theorem numAt_window (d : Data) {k n i m : Nat} (h : i + m ≤ n) :
    (d.window k n).numAt i m = d.numAt (k + i) m := by
  unfold numAt
  rw [window_window d h, window_startIndex, Nat.add_assoc]

theorem uint32At_window (d : Data) {k n i : Nat} (h : i + 4 ≤ n) :
    (d.window k n).uint32At i = d.uint32At (k + i) :=
  congrArg (Field.map UInt32.ofNat) (numAt_window d h)

theorem uint64At_window (d : Data) {k n i : Nat} (h : i + 8 ≤ n) :
    (d.window k n).uint64At i = d.uint64At (k + i) :=
  congrArg (Field.map UInt64.ofNat) (numAt_window d h)

theorem window_all (d : Data) : d.window 0 d.count = d := by
  unfold window count
  rw [List.drop_zero, List.take_length, Nat.add_zero]

theorem slice_ok (d : Data) {k n : Nat} (h : k + n ≤ d.count) :
    d.slice (d.startIndex + k) (d.startIndex + k + n) = .ok (d.window k n) := by
  unfold slice endIndex
  rw [if_pos ⟨by omega, by omega, by omega⟩]
  congr 2 <;> omega

theorem subSequenceAllowing_eq_ok {d e : Data} {z : Bool} {k n : Nat} :
    d.subSequenceAllowing z k n = .ok e ↔
      (z = true ∨ 0 < n) ∧ k + n ≤ d.count ∧ e = d.window k n := by
  unfold subSequenceAllowing
  simp only [bind_eq_ok, guardElse_eq_ok, decide_eq_true_eq]
  constructor
  · rintro ⟨_, hz, _, hle, hs⟩
    rw [slice_ok d hle, Except.ok.injEq] at hs
    refine ⟨?_, hle, hs.symm⟩
    cases z
    · right
      simp at hz
      omega
    · exact Or.inl rfl
  · rintro ⟨hz, hle, rfl⟩
    refine ⟨(), ?_, (), hle, slice_ok d hle⟩
    rcases hz with rfl | hn
    · rfl
    · have : ¬ n = 0 := by omega
      simp [this]

theorem subSequence_eq_ok {d e : Data} {k n : Nat} :
    d.subSequence k n = .ok e ↔ 0 < n ∧ k + n ≤ d.count ∧ e = d.window k n := by
  unfold subSequence
  rw [subSequenceAllowing_eq_ok]
  simp

theorem subSequence_ok {d : Data} {k n : Nat} (hn : 0 < n) (h : k + n ≤ d.count) :
    d.subSequence k n = .ok (d.window k n) :=
  subSequence_eq_ok.mpr ⟨hn, h, rfl⟩

theorem subSequenceFrom_eq_ok {d e : Data} {k : Nat} :
    d.subSequenceFrom k = .ok e ↔ k < d.count ∧ e = d.window k (d.count - k) := by
  unfold subSequenceFrom
  simp only [bind_eq_ok, guardElse_eq_ok, decide_eq_true_eq]
  constructor
  · rintro ⟨_, hlt, hs⟩
    have hend : d.endIndex = d.startIndex + k + (d.count - k) := by unfold endIndex; omega
    rw [hend, slice_ok d (by omega), Except.ok.injEq] at hs
    exact ⟨hlt, hs.symm⟩
  · rintro ⟨hlt, rfl⟩
    have hend : d.endIndex = d.startIndex + k + (d.count - k) := by unfold endIndex; omega
    rw [hend]
    exact ⟨(), hlt, slice_ok d (by omega)⟩

theorem cast_eq_ok {d : Data} {size : Nat} {x : Field Nat} :
    d.cast size = .ok x ↔ d.count = size ∧ x = ⟨leNat d.bytes, d.span⟩ := by
  unfold cast
  simp only [bind_eq_ok, guardElse_eq_ok, beq_iff_eq, pure_eq_ok, Except.ok.injEq]
  constructor
  · rintro ⟨_, h, rfl⟩
    exact ⟨h, rfl⟩
  · rintro ⟨h, rfl⟩
    exact ⟨(), h, rfl⟩

/-- A window of `n` bytes casts to the `n`-byte number there. -/
theorem cast_window {d : Data} {k n : Nat} (h : k + n ≤ d.count) :
    (d.window k n).cast n = .ok (d.numAt k n) := by
  rw [cast_eq_ok, window_span d h]
  exact ⟨window_count d h, rfl⟩

theorem uint8_window {d : Data} {k : Nat} (h : k + 1 ≤ d.count) :
    (d.window k 1).uint8 = .ok (d.uint8At k) := by
  rw [uint8, cast_window h]; rfl

theorem uint16_window {d : Data} {k : Nat} (h : k + 2 ≤ d.count) :
    (d.window k 2).uint16 = .ok (d.uint16At k) := by
  rw [uint16, cast_window h]; rfl

theorem uint32_window {d : Data} {k : Nat} (h : k + 4 ≤ d.count) :
    (d.window k 4).uint32 = .ok (d.uint32At k) := by
  rw [uint32, cast_window h]; rfl

theorem int32_window {d : Data} {k : Nat} (h : k + 4 ≤ d.count) :
    (d.window k 4).int32 = .ok (d.int32At k) := by
  rw [int32, cast_window h]; rfl

theorem uint64_window {d : Data} {k : Nat} (h : k + 8 ≤ d.count) :
    (d.window k 8).uint64 = .ok (d.uint64At k) := by
  rw [uint64, cast_window h]; rfl

/-- Slice, then read: `data.subSequence(from: k, count: 4).UInt32`. -/
theorem subSequence_uint32_bind {β : Type} {d : Data} {k : Nat} {f : Field UInt32 → Run β} {b : β} :
    (d.subSequence k 4 >>= fun w => w.uint32 >>= f) = .ok b ↔
      k + 4 ≤ d.count ∧ f (d.uint32At k) = .ok b := by
  rw [bind_eq_ok]
  constructor
  · rintro ⟨w, hw, h⟩
    obtain ⟨-, hle, rfl⟩ := subSequence_eq_ok.mp hw
    rw [uint32_window hle, ok_bind] at h
    exact ⟨hle, h⟩
  · rintro ⟨hle, h⟩
    refine ⟨d.window k 4, subSequence_ok (by decide) hle, ?_⟩
    rw [uint32_window hle, ok_bind]
    exact h

/-- `data.subSequence(from: k, count: 8).UInt64`. -/
theorem subSequence_uint64_bind {β : Type} {d : Data} {k : Nat} {f : Field UInt64 → Run β} {b : β} :
    (d.subSequence k 8 >>= fun w => w.uint64 >>= f) = .ok b ↔
      k + 8 ≤ d.count ∧ f (d.uint64At k) = .ok b := by
  rw [bind_eq_ok]
  constructor
  · rintro ⟨w, hw, h⟩
    obtain ⟨-, hle, rfl⟩ := subSequence_eq_ok.mp hw
    rw [uint64_window hle, ok_bind] at h
    exact ⟨hle, h⟩
  · rintro ⟨hle, h⟩
    refine ⟨d.window k 8, subSequence_ok (by decide) hle, ?_⟩
    rw [uint64_window hle, ok_bind]
    exact h

/-- A byte inside the slice. -/
theorem byteAt_eq_ok {d : Data} {k : Nat} {x : Field UInt8} :
    d.byteAt (d.startIndex + k) = .ok x ↔
      ∃ b, d.bytes[k]? = some b ∧ x = ⟨b, Span.of (d.startIndex + k) 1⟩ := by
  unfold byteAt
  rw [if_pos (Nat.le_add_right _ _), Nat.add_sub_cancel_left]
  cases d.bytes[k]? with
  | none => simp
  | some b => simp [eq_comm]

end Data

end Mocha
