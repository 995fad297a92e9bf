import Mocha.Helpers.Layout
import Mocha.Lib.Leb128

/-!
# LEB128 numbers and C strings (`Helpers/InterpreterUtils.swift`)

The loop that decodes a LEB128 number occurs three times in the source (`_readULEB128`,
`OperationCodeComponent.operationCodes`, `FunctionStartsComponent.init`) with the same body, and the
loop that looks for the NUL of a string twice; `lebLoop` and `cStringLoop` are these two loops.
Indices are relative to the start of the data.

* **`readLEB_eq_ok`**: the number loop returns at index `k` exactly when a complete LEB128 run lies
  there (and its shift count stays below `2 ^ 32`); the result is the run's value modulo `2 ^ 64`.
* **`cStringEnd_eq_ok`**: the string loop returns exactly when a NUL-terminated run lies there.
-/

namespace Mocha

open Lib Data

/-! ## Bytes of a slice -/

theorem holds_singleton {d : Data} {k : Nat} {b : UInt8} :
    d.Holds k [b] ↔ d.bytes[k]? = some b := by
  unfold Data.Holds Data.window
  rw [List.length_singleton]
  constructor
  · rintro ⟨hle, heq⟩
    have hlt : k < d.bytes.length := hle
    rw [List.drop_eq_getElem_cons hlt, List.take_succ_cons, List.take_zero] at heq
    obtain ⟨hb, -⟩ := List.cons_eq_cons.mp heq
    rw [List.getElem?_eq_getElem hlt, hb]
  · intro h
    obtain ⟨hlt, hb⟩ := List.getElem?_eq_some_iff.mp h
    refine ⟨hlt, ?_⟩
    rw [List.drop_eq_getElem_cons hlt, List.take_succ_cons, List.take_zero, hb]

theorem holds_cons {d : Data} {k : Nat} {b : UInt8} {bs : List UInt8} :
    d.Holds k (b :: bs) ↔ d.bytes[k]? = some b ∧ d.Holds (k + 1) bs := by
  rw [← List.singleton_append, holds_append, holds_singleton, List.length_singleton]

theorem holds_nil {d : Data} {k : Nat} : d.Holds k [] ↔ k ≤ d.count := by
  unfold Data.Holds Data.window
  rw [List.length_nil, List.take_zero, Nat.add_zero]
  exact and_iff_left rfl

/-- At most one terminated run lies at an offset. -/
theorem Data.Holds.unique {d : Data} {k : Nat} {stop : UInt8 → Bool} {as bs : List UInt8}
    (ha : d.Holds k as) (hb : d.Holds k bs) (has : Terminated stop as) (hbs : Terminated stop bs) :
    as = bs := by
  have hsplit : ∀ {cs}, d.Holds k cs → cs ++ (d.bytes.drop k).drop cs.length = d.bytes.drop k := by
    intro cs h
    have hbytes : (d.bytes.drop k).take cs.length = cs := h.2
    calc cs ++ (d.bytes.drop k).drop cs.length
        = (d.bytes.drop k).take cs.length ++ (d.bytes.drop k).drop cs.length := by rw [hbytes]
      _ = d.bytes.drop k := List.take_append_drop _ _
  exact (has.unique hbs ((hsplit ha).trans (hsplit hb).symm)).1

theorem byteAt_bind {β : Type} {d : Data} {k : Nat} {f : Field UInt8 → Run β} {r : β} :
    (d.byteAt (d.startIndex + k) >>= f) = .ok r ↔
      ∃ b, d.bytes[k]? = some b ∧ f ⟨b, Span.of (d.startIndex + k) 1⟩ = .ok r := by
  rw [bind_eq_ok]
  constructor
  · rintro ⟨x, hx, hf⟩
    obtain ⟨b, hb, rfl⟩ := byteAt_eq_ok.mp hx
    exact ⟨b, hb, hf⟩
  · rintro ⟨b, hb, hf⟩
    exact ⟨_, byteAt_eq_ok.mpr ⟨b, hb, rfl⟩, hf⟩

theorem lt_count_of_getElem? {d : Data} {k : Nat} {b : UInt8} (h : d.bytes[k]? = some b) :
    k < d.count :=
  (List.getElem?_eq_some_iff.mp h).1

/-! ## LEB128 numbers -/

/-- The variables of the number loop. -/
structure LEBState where
  index : Nat
  delta : UInt64
  shift : Nat
  more : Bool

/-- One turn of `repeat { … } while (more)`. The shift count is a `UInt32`. -/
def lebStep (d : Data) (s : LEBState) : Run (UInt8 × LEBState) := do
  let byte ← d.byteAt (d.startIndex + s.index)
  let delta := s.delta ||| lebShift byte.value s.shift
  if 2 ^ 32 ≤ s.shift + 7 then .error .overflow
  return (byte.value, ⟨s.index + 1, delta, s.shift + 7, !decide (byte.value < 0x80)⟩)

theorem lebStep_eq_ok {d : Data} {s t : LEBState} {b : UInt8} :
    lebStep d s = .ok (b, t) ↔ d.bytes[s.index]? = some b ∧ s.shift + 7 < 2 ^ 32 ∧
      t = ⟨s.index + 1, s.delta ||| lebShift b s.shift, s.shift + 7, !lebStop b⟩ := by
  unfold lebStep
  rw [byteAt_bind]
  by_cases h : 2 ^ 32 ≤ s.shift + 7
  · simp only [h, if_true]
    constructor
    · rintro ⟨_, _, he⟩
      cases he
    · rintro ⟨_, hlt, _⟩
      exact absurd h (Nat.not_le_of_lt hlt)
  · simp only [h, if_false, pure_eq_ok, Except.ok.injEq, Prod.mk.injEq]
    constructor
    · rintro ⟨_, hb, rfl, rfl⟩
      exact ⟨hb, Nat.lt_of_not_le h, rfl⟩
    · rintro ⟨hb, _, rfl⟩
      exact ⟨b, hb, rfl, rfl⟩

/-- The number loop. -/
def lebLoop (d : Data) : Loop Trap LEBState UInt8 where
  more := LEBState.more
  next := lebStep d
  rank s := d.count - s.index
  lowers _ hn := by
    obtain ⟨hb, _, rfl⟩ := lebStep_eq_ok.mp hn
    have hlt := lt_count_of_getElem? hb
    simp only
    omega

/-- The number loop from `index`, with the variables at its end. -/
def readLEB (d : Data) (index : Nat) : Run LEBState := do
  let (_, s) ← (lebLoop d).run ⟨index, 0, 0, true⟩
  return s

theorem lebNat_cons_acc (b : UInt8) (bs : List UInt8) (v s : Nat) :
    v + b.toNat % 128 * 2 ^ s + lebNat bs * 2 ^ (s + 7) = v + lebNat (b :: bs) * 2 ^ s := by
  rw [lebNat, Nat.pow_add]
  ring

theorem leb_acc_lt (b : UInt8) {v s : Nat} (hv : v < 2 ^ s) :
    v + b.toNat % 128 * 2 ^ s < 2 ^ (s + 7) := by
  have hb : b.toNat % 128 + 1 ≤ 128 := Nat.mod_lt _ (by decide)
  calc v + b.toNat % 128 * 2 ^ s < 2 ^ s + b.toNat % 128 * 2 ^ s := by omega
    _ = (b.toNat % 128 + 1) * 2 ^ s := by ring
    _ ≤ 128 * 2 ^ s := Nat.mul_le_mul_right _ hb
    _ = 2 ^ (s + 7) := by rw [Nat.pow_add, Nat.mul_comm]

/-- What the loop makes of a run of bytes, from any value `v` of the bits read before. -/
theorem leb_turns_iff {d : Data} (bs : List UInt8) : ∀ {k v s : Nat} {t : LEBState}, v < 2 ^ s →
    ((lebLoop d).Turns ⟨k, UInt64.ofNat v, s, true⟩ bs t ∧ t.more = false ↔
      d.Holds k bs ∧ IsLeb bs ∧ s + 7 * bs.length < 2 ^ 32 ∧
        t = ⟨k + bs.length, UInt64.ofNat (v + lebNat bs * 2 ^ s), s + 7 * bs.length, false⟩) := by
  induction bs with
  | nil =>
    intro k v s t _
    constructor
    · rintro ⟨hturns, hmore⟩
      cases hturns
      cases hmore
    · rintro ⟨_, hleb, _⟩
      exact absurd rfl hleb.ne_nil
  | cons b bs ih =>
    intro k v s t hv
    have hlt := leb_acc_lt b hv
    have hlen : s + 7 * (b :: bs).length = s + 7 + 7 * bs.length := by
      rw [List.length_cons]
      omega
    have hend : k + (b :: bs).length = k + 1 + bs.length := by
      rw [List.length_cons]
      omega
    rw [holds_cons, hlen, hend, ← lebNat_cons_acc]
    constructor
    · rintro ⟨hturns, hmore⟩
      cases hturns with
      | cons hm hn ht =>
        obtain ⟨hb, hshift, rfl⟩ := lebStep_eq_ok.mp hn
        simp only [or_lebShift b hv] at ht
        cases hstop : lebStop b with
        | true =>
          -- the flag is down, so no byte follows
          rw [hstop] at ht
          cases ht with
          | nil =>
            refine ⟨⟨hb, holds_nil.mpr (lt_count_of_getElem? hb)⟩, .last hstop, hshift, ?_⟩
            simp [lebNat]
          | cons hm' _ _ => cases hm'
        | false =>
          rw [hstop] at ht
          obtain ⟨hholds, hleb, hbound, ht⟩ := (ih hlt).mp ⟨ht, hmore⟩
          exact ⟨⟨hb, hholds⟩, .more hstop hleb, hbound, ht⟩
    · rintro ⟨⟨hb, hholds⟩, hleb, hbound, rfl⟩
      have hn : (lebLoop d).next ⟨k, UInt64.ofNat v, s, true⟩ = .ok (b, ⟨k + 1,
          UInt64.ofNat (v + b.toNat % 128 * 2 ^ s), s + 7, !lebStop b⟩) := by
        refine lebStep_eq_ok.mpr ⟨hb, ?_, ?_⟩
        · simp only
          omega
        · simp only [or_lebShift b hv]
      cases hleb with
      | last hstop =>
        refine ⟨.cons rfl hn ?_, rfl⟩
        simp [hstop, lebNat, Walk.Turns.nil]
      | more hstop hleb =>
        obtain ⟨hturns, hmore⟩ := (ih hlt).mpr ⟨hholds, hleb, hbound, rfl⟩
        rw [hstop] at hn
        exact ⟨.cons rfl hn hturns, hmore⟩

/-- **The number loop**: a complete LEB128 run at `k`, and its value modulo `2 ^ 64`. -/
theorem readLEB_eq_ok {d : Data} {k : Nat} {t : LEBState} :
    readLEB d k = .ok t ↔ ∃ bs, d.Holds k bs ∧ IsLeb bs ∧ 7 * bs.length < 2 ^ 32 ∧
      t = ⟨k + bs.length, UInt64.ofNat (lebNat bs), 7 * bs.length, false⟩ := by
  have hiff : ∀ bs, (lebLoop d).Turns ⟨k, 0, 0, true⟩ bs t ∧ t.more = false ↔
      d.Holds k bs ∧ IsLeb bs ∧ 7 * bs.length < 2 ^ 32 ∧
        t = ⟨k + bs.length, UInt64.ofNat (lebNat bs), 7 * bs.length, false⟩ := by
    intro bs
    have h := leb_turns_iff (d := d) bs (k := k) (v := 0) (s := 0) (t := t) (by decide)
    simpa using h
  unfold readLEB
  rw [bind_eq_ok]
  constructor
  · rintro ⟨⟨bs, u⟩, hrun, h⟩
    cases h
    exact ⟨bs, (hiff bs).mp (Loop.run_eq_ok_iff.mp hrun)⟩
  · rintro ⟨bs, h⟩
    exact ⟨(bs, t), Loop.run_eq_ok_iff.mpr ((hiff bs).mpr h), rfl⟩

/-- `LEB128`. -/
structure LEB128 where
  rawValue : UInt64
  isSigned : Bool
  byteCount : Nat
  deriving DecidableEq

/-- `readULEB128(in:at:)`. -/
def readULEB128 (d : Data) (offset : Nat) : Run (Field LEB128) := do
  let s ← readLEB d offset
  return ⟨⟨s.delta, false, s.index - offset⟩, Span.of (d.startIndex + offset) (s.index - offset)⟩

/-- What `readULEB128` makes of the run `bs` at `offset`. -/
def ulebField (d : Data) (offset : Nat) (bs : List UInt8) : Field LEB128 :=
  ⟨⟨UInt64.ofNat (lebNat bs), false, bs.length⟩, Span.of (d.startIndex + offset) bs.length⟩

theorem readULEB128_eq_ok {d : Data} {k : Nat} {f : Field LEB128} :
    readULEB128 d k = .ok f ↔ ∃ bs, d.Holds k bs ∧ IsLeb bs ∧ 7 * bs.length < 2 ^ 32 ∧
      f = ulebField d k bs := by
  unfold readULEB128 ulebField
  rw [bind_eq_ok]
  constructor
  · rintro ⟨t, ht, hf⟩
    obtain ⟨bs, hholds, hleb, hlen, rfl⟩ := readLEB_eq_ok.mp ht
    rw [pure_eq_ok, Except.ok.injEq] at hf
    simp only [Nat.add_sub_cancel_left] at hf
    exact ⟨bs, hholds, hleb, hlen, hf.symm⟩
  · rintro ⟨bs, hholds, hleb, hlen, rfl⟩
    refine ⟨_, readLEB_eq_ok.mpr ⟨bs, hholds, hleb, hlen, rfl⟩, ?_⟩
    simp only [Nat.add_sub_cancel_left, pure_eq_ok]

/-- `readSLEB128(in:at:)`: every bit above the ones read is set. -/
def readSLEB128 (d : Data) (offset : Nat) : Run (Field LEB128) := do
  let s ← readLEB d offset
  return ⟨⟨s.delta ||| UInt64.ofNat ((2 ^ 64 - 1) * 2 ^ s.shift), true, s.index - offset⟩,
    Span.of (d.startIndex + offset) (s.index - offset)⟩

/-! ## C strings -/

/-- A string ends at its NUL. -/
def nulStop (b : UInt8) : Bool := b == 0

/-- A NUL-terminated byte string. -/
abbrev IsCString (bs : List UInt8) : Prop := Terminated nulStop bs

/-- One turn of `while (rawData[rawData.startIndex+index] != 0) { index += 1 }`. The second
component says whether the condition held. -/
def cStringStep (d : Data) (s : Nat × Bool) : Run (UInt8 × (Nat × Bool)) := do
  let byte ← d.byteAt (d.startIndex + s.1)
  return (byte.value, if byte.value != 0 then (s.1 + 1, true) else (s.1, false))

theorem cStringStep_eq_ok {d : Data} {s t : Nat × Bool} {b : UInt8} :
    cStringStep d s = .ok (b, t) ↔ d.bytes[s.1]? = some b ∧
      t = if nulStop b then (s.1, false) else (s.1 + 1, true) := by
  unfold cStringStep nulStop
  simp only [byteAt_bind, pure_eq_ok, Except.ok.injEq, Prod.mk.injEq]
  constructor
  · rintro ⟨_, hb, rfl, rfl⟩
    refine ⟨hb, ?_⟩
    cases h : (_ == (0 : UInt8)) <;> simp [bne, h]
  · rintro ⟨hb, rfl⟩
    refine ⟨b, hb, rfl, ?_⟩
    cases h : (b == (0 : UInt8)) <;> simp [bne, h]

/-- The string loop. -/
def cStringLoop (d : Data) : Loop Trap (Nat × Bool) UInt8 where
  more := Prod.snd
  next := cStringStep d
  rank s := 2 * (d.count - s.1) + if s.2 then 1 else 0
  lowers hm hn := by
    obtain ⟨hb, rfl⟩ := cStringStep_eq_ok.mp hn
    have hlt := lt_count_of_getElem? hb
    rw [hm, if_pos rfl]
    split
    · simp
    · simp only [if_true]
      omega

/-- The index after the NUL of the string at `index`: the loop, then `index += 1`. -/
def cStringEnd (d : Data) (index : Nat) : Run Nat := do
  let (_, s) ← (cStringLoop d).run (index, true)
  return s.1 + 1

theorem cString_turns_iff {d : Data} (bs : List UInt8) : ∀ {k e : Nat},
    (cStringLoop d).Turns (k, true) bs (e, false) ↔
      d.Holds k bs ∧ IsCString bs ∧ e + 1 = k + bs.length := by
  induction bs with
  | nil =>
    intro k e
    constructor
    · intro h
      cases h
    · rintro ⟨_, hstr, _⟩
      exact absurd rfl hstr.ne_nil
  | cons b bs ih =>
    intro k e
    have hend : k + (b :: bs).length = k + 1 + bs.length := by
      rw [List.length_cons]
      omega
    rw [holds_cons, hend]
    constructor
    · intro hturns
      cases hturns with
      | cons hm hn ht =>
        obtain ⟨hb, rfl⟩ := cStringStep_eq_ok.mp hn
        cases hstop : nulStop b with
        | true =>
          rw [hstop, if_pos rfl] at ht
          cases ht with
          | nil =>
            exact ⟨⟨hb, holds_nil.mpr (lt_count_of_getElem? hb)⟩, .last hstop, rfl⟩
          | cons hm' _ _ => cases hm'
        | false =>
          rw [hstop, if_neg Bool.false_ne_true] at ht
          obtain ⟨hholds, hstr, he⟩ := ih.mp ht
          exact ⟨⟨hb, hholds⟩, .more hstop hstr, he⟩
    · rintro ⟨⟨hb, hholds⟩, hstr, he⟩
      have hn := cStringStep_eq_ok (d := d) (s := (k, true)) |>.mpr ⟨hb, rfl⟩
      cases hstr with
      | last hstop =>
        rw [hstop, if_pos rfl] at hn
        have hk : e = k := by
          rw [List.length_nil] at he
          omega
        exact .cons rfl hn (hk ▸ .nil _)
      | more hstop hstr =>
        rw [hstop, if_neg Bool.false_ne_true] at hn
        exact .cons rfl hn (ih.mpr ⟨hholds, hstr, he⟩)

/-- **The string loop**: a NUL-terminated run at `k`, and the index after it. -/
theorem cStringEnd_eq_ok {d : Data} {k e : Nat} :
    cStringEnd d k = .ok e ↔ ∃ bs, d.Holds k bs ∧ IsCString bs ∧ e = k + bs.length := by
  unfold cStringEnd
  rw [bind_eq_ok]
  constructor
  · rintro ⟨⟨bs, i, m⟩, hrun, h⟩
    cases h
    obtain ⟨hturns, hmore⟩ := Loop.run_eq_ok_iff.mp hrun
    have hm : m = false := hmore
    subst hm
    obtain ⟨hholds, hstr, he⟩ := (cString_turns_iff bs).mp hturns
    exact ⟨bs, hholds, hstr, he⟩
  · rintro ⟨bs, hholds, hstr, rfl⟩
    have hpos := hstr.length_pos
    have he : k + bs.length - 1 + 1 = k + bs.length := by omega
    refine ⟨(bs, k + bs.length - 1, false), Loop.run_eq_ok_iff.mpr ⟨?_, rfl⟩, congrArg _ he⟩
    exact (cString_turns_iff bs).mpr ⟨hholds, hstr, he⟩

/-- `CString`. -/
structure CString where
  rawValue : String
  byteCount : Nat
  deriving DecidableEq

/-- `readUTF8String(in:at:spacedRemoved:)`. -/
def readUTF8String (d : Data) (offset : Nat) (spacedRemoved : Bool) : Run (Field CString) := do
  let endIndex ← cStringEnd d offset
  let cStringByteLength := endIndex - offset
  let cStringData ← d.subSequence offset cStringByteLength
  let cString ← guardLet cStringData.utf8String
  return ⟨⟨if spacedRemoved then Mocha.spaceRemoved cString else cString, cStringByteLength⟩,
    cStringData.span⟩

/-- **A string is read** where the bytes of one lie that ends at its first NUL. -/
theorem readUTF8String_eq_ok {d : Data} {k : Nat} {z : Bool} {f : Field CString} :
    readUTF8String d k z = .ok f ↔ ∃ s, d.Holds k (utf8 s) ∧ IsCString (utf8 s) ∧
      f = ⟨⟨if z then Mocha.spaceRemoved s else s, (utf8 s).length⟩,
        Span.of (d.startIndex + k) (utf8 s).length⟩ := by
  unfold readUTF8String
  rw [bind_eq_ok]
  constructor
  · rintro ⟨e, he, h⟩
    obtain ⟨bs, hholds, hstr, rfl⟩ := cStringEnd_eq_ok.mp he
    simp only [Nat.add_sub_cancel_left] at h
    rw [subSequence_ok hstr.length_pos hholds.1, ok_bind, guardLet_bind] at h
    obtain ⟨s, hs, h⟩ := h
    rw [utf8String_eq_some, hholds.2] at hs
    subst hs
    rw [window_span d hholds.1, pure_eq_ok, Except.ok.injEq] at h
    exact ⟨s, hholds, hstr, h.symm⟩
  · rintro ⟨s, hholds, hstr, rfl⟩
    refine ⟨_, cStringEnd_eq_ok.mpr ⟨utf8 s, hholds, hstr, rfl⟩, ?_⟩
    simp only [Nat.add_sub_cancel_left]
    rw [subSequence_ok hstr.length_pos hholds.1, ok_bind, guardLet_bind]
    refine ⟨s, utf8String_eq_some.mpr hholds.2, ?_⟩
    rw [window_span d hholds.1, pure_eq_ok]

end Mocha
