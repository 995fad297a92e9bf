import Mocha.Components.FunctionStarts
import Mocha.Components.OperationCode

/-!
# The three LEB128 readers

`InterpreterUtils._readULEB128`, the operand loop of `operationCodes(from:)` and the inner loop of
`FunctionStartsComponent.init` are the same loop written three times. The first two have the same body,
`lebStep`; the third one adds the number to an address and appends a function start on its last turn.
`deltaStep` is its body as it is written, and `readDelta_eq` says that it is `readLEB` and then these
two steps, also when one of them traps.

The shift count of the loops is a `UInt32`. Where the bytes of a number do not end, a loop runs past the
end of the data unless there are so many of them that the count overflows first
(`readLEB_outOfBounds_iff`).

**`ulebReaders_agree`** puts the three side by side.
-/

namespace Mocha

open Lib Data

/-! ## The loop of the function starts -/

/-- The variables of the inner loop of `FunctionStartsComponent.init`. -/
structure DeltaState where
  index : Nat
  delta : UInt64
  shift : Nat
  more : Bool
  address : UInt64
  functionStarts : List FunctionStart

/-- One turn of the inner loop, for the number that begins at `startIndex`. -/
def deltaStep (d : Data) (startIndex : Nat) (s : DeltaState) : Run (UInt8 × DeltaState) := do
  let byte ← d.byteAt (d.startIndex + s.index)
  let index := s.index + 1
  let delta := s.delta ||| lebShift byte.value s.shift
  if 2 ^ 32 ≤ s.shift + 7 then .error .overflow
  let shift := s.shift + 7
  if byte.value < 0x80 then
    let address ← plus s.address delta
    return (byte.value, ⟨index, delta, shift, false, address,
      s.functionStarts ++ [⟨startIndex, index - startIndex, address⟩]⟩)
  else return (byte.value, ⟨index, delta, shift, s.more, s.address, s.functionStarts⟩)

section Step

variable {d : Data}

theorem byteAt_none {k : Nat} (h : d.bytes[k]? = none) :
    d.byteAt (d.startIndex + k) = .error .outOfBounds := by
  unfold Data.byteAt
  rw [if_pos (Nat.le_add_right _ _), Nat.add_sub_cancel_left, h]

theorem byteAt_some {k : Nat} {b : UInt8} (h : d.bytes[k]? = some b) :
    d.byteAt (d.startIndex + k) = .ok ⟨b, Span.of (d.startIndex + k) 1⟩ :=
  byteAt_eq_ok.mpr ⟨b, h, rfl⟩

theorem lebStep_none {s : LEBState} (h : d.bytes[s.index]? = none) :
    lebStep d s = .error .outOfBounds := by
  rw [lebStep, byteAt_none h]
  rfl

theorem lebStep_overflow {s : LEBState} {b : UInt8} (h : d.bytes[s.index]? = some b)
    (hshift : 2 ^ 32 ≤ s.shift + 7) : lebStep d s = .error .overflow := by
  rw [lebStep, byteAt_some h, ok_bind, if_pos hshift]
  rfl

/-- The variables of the third loop, where those of the first two are `s`. -/
def LEBState.running (s : LEBState) (address : UInt64) (functionStarts : List FunctionStart) : DeltaState :=
  ⟨s.index, s.delta, s.shift, true, address, functionStarts⟩

/-- The variables of the third loop when it is over: the number is added to the address. -/
def LEBState.finish (t : LEBState) (startIndex : Nat) (address : UInt64)
    (functionStarts : List FunctionStart) : Run DeltaState := do
  let address ← plus address t.delta
  return ⟨t.index, t.delta, t.shift, false, address,
    functionStarts ++ [⟨startIndex, t.index - startIndex, address⟩]⟩

/-- **One turn of the third loop** is one of the other two, and the end if it is the last. -/
theorem deltaStep_eq (k : Nat) (s : LEBState) (a : UInt64) (fs : List FunctionStart) :
    deltaStep d k (s.running a fs) = (do
      let (b, t) ← lebStep d s
      if t.more then return (b, t.running a fs)
      else return (b, ← t.finish k a fs)) := by
  cases hb : d.bytes[s.index]? with
  | none =>
    rw [lebStep_none hb, deltaStep, LEBState.running, byteAt_none hb]
    rfl
  | some b =>
    by_cases hshift : 2 ^ 32 ≤ s.shift + 7
    · rw [lebStep_overflow hb hshift, deltaStep, LEBState.running, byteAt_some hb, ok_bind, if_pos hshift]
      rfl
    · have hstep := lebStep_eq_ok.mpr ⟨hb, Nat.lt_of_not_le hshift, rfl⟩
      rw [hstep, ok_bind, deltaStep, LEBState.running]
      simp only [byteAt_some hb, ok_bind, if_neg hshift, lebStop]
      by_cases hstop : b < 0x80
      · simp only [hstop, if_true, decide_true, Bool.not_true, Bool.false_eq_true, if_false,
          LEBState.finish, bind_assoc, pure_bind]
      · simp only [hstop, if_false, decide_false, Bool.not_false, if_true, LEBState.running]

theorem deltaStep_index {k : Nat} {s t : DeltaState} {b : UInt8} (h : deltaStep d k s = .ok (b, t)) :
    s.index < d.count ∧ t.index = s.index + 1 := by
  unfold deltaStep at h
  rw [byteAt_bind] at h
  obtain ⟨b', hb, h⟩ := h
  refine ⟨lt_count_of_getElem? hb, ?_⟩
  simp only at h
  split at h
  · cases h
  · split at h
    · rw [bind_eq_ok] at h
      obtain ⟨a, -, h⟩ := h
      cases h
      rfl
    · cases h
      rfl

end Step

/-- The inner loop of `FunctionStartsComponent.init`. -/
def deltaLoop (d : Data) (startIndex : Nat) : Loop Trap DeltaState UInt8 where
  more := DeltaState.more
  next := deltaStep d startIndex
  rank s := d.count - s.index
  lowers _ hn := by
    obtain ⟨hlt, hnext⟩ := deltaStep_index hn
    omega

/-- The inner loop from `index` on, with the variables at its end. -/
def readDelta (d : Data) (index : Nat) (address : UInt64) : Run DeltaState := do
  let (_, s) ← (deltaLoop d index).run ⟨index, 0, 0, true, address, []⟩
  return s

theorem deltaLoop_run {d : Data} (k : Nat) (a : UInt64) (fs : List FunctionStart) (n : Nat) :
    ∀ s : LEBState, d.count - s.index = n → s.more = true →
      (deltaLoop d k).run (s.running a fs) = (do
        let (bs, t) ← (lebLoop d).run s
        return (bs, ← t.finish k a fs)) := by
  induction n using Nat.strongRecOn with
  | ind n ih =>
    intro s hn hmore
    have hstep : (deltaLoop d k).next (s.running a fs) = _ := deltaStep_eq k s a fs
    cases hleb : lebStep d s with
    | error e =>
      rw [hleb] at hstep
      rw [Loop.run_error rfl hstep, Loop.run_error (L := lebLoop d) hmore hleb]
      rfl
    | ok r =>
      obtain ⟨b, t⟩ := r
      obtain ⟨hb, -, ht⟩ := lebStep_eq_ok.mp hleb
      have hlt := lt_count_of_getElem? hb
      have hindex : t.index = s.index + 1 := congrArg LEBState.index ht
      rw [hleb, ok_bind] at hstep
      rw [Loop.run_step (L := lebLoop d) hmore hleb]
      cases hlast : t.more with
      | true =>
        simp only [hlast, if_true, pure_eq_ok] at hstep
        rw [Loop.run_step rfl hstep, ih (d.count - t.index) (by omega) t rfl hlast, bind_assoc, bind_assoc]
        simp only [ok_bind, bind_assoc, pure_eq_ok]
      | false =>
        -- the flag is down: the number is added to the address and nothing is read any more
        simp only [hlast, Bool.false_eq_true, if_false] at hstep
        rw [Loop.run_done (L := lebLoop d) hlast, ok_bind, ok_bind]
        cases hfinish : t.finish k a fs with
        | error e =>
          rw [hfinish] at hstep
          simp only [hfinish]
          exact Loop.run_error rfl hstep
        | ok u =>
          have hdone : (deltaLoop d k).more u = false := by
            unfold LEBState.finish at hfinish
            rw [bind_eq_ok] at hfinish
            obtain ⟨a', -, hfinish⟩ := hfinish
            cases hfinish
            rfl
          rw [hfinish] at hstep
          simp only [hfinish]
          rw [Loop.run_step rfl hstep, Loop.run_done hdone]
          rfl

/-- **The third loop** is the other two, and then the address and the function start. -/
theorem readDelta_eq (d : Data) (k : Nat) (a : UInt64) :
    readDelta d k a = readLEB d k >>= fun t => t.finish k a [] := by
  have hrun := deltaLoop_run (d := d) k a [] _ ⟨k, 0, 0, true⟩ rfl rfl
  unfold readDelta readLEB
  simp only [LEBState.running] at hrun
  rw [hrun, bind_assoc, bind_assoc]
  simp only [bind_assoc, pure_bind, bind_pure]

/-! ## Numbers that do not end -/

/-- No byte from `k` on ends a number. -/
def Unended (d : Data) (k : Nat) : Prop := ∀ b ∈ d.bytes.drop k, 0x80 ≤ b

theorem unended_cons {d : Data} {k : Nat} {b : UInt8} (hb : d.bytes[k]? = some b) :
    Unended d k ↔ lebStop b = false ∧ Unended d (k + 1) := by
  obtain ⟨hlt, rfl⟩ := List.getElem?_eq_some_iff.mp hb
  unfold Unended lebStop
  rw [List.drop_eq_getElem_cons hlt, List.forall_mem_cons, decide_eq_false_iff_not, UInt8.not_lt]

theorem lebLoop_outOfBounds_iff {d : Data} (n : Nat) :
    ∀ s : LEBState, d.count - s.index = n → s.more = true → s.shift < 2 ^ 32 →
      ((lebLoop d).run s = .error .outOfBounds ↔ Unended d s.index ∧ s.shift + 7 * n < 2 ^ 32) := by
  induction n with
  | zero =>
    intro s hn hmore hshift
    have hnone : d.bytes[s.index]? = none := List.getElem?_eq_none (by unfold Data.count at hn; omega)
    have hempty : d.bytes.drop s.index = [] := List.drop_eq_nil_of_le (by unfold Data.count at hn; omega)
    refine iff_of_true (Loop.run_error hmore (lebStep_none hnone)) ⟨?_, hshift⟩
    rw [Unended, hempty]
    nofun
  | succ n ih =>
    intro s hn hmore hshift
    have hlt : s.index < d.bytes.length := by
      unfold Data.count at hn
      omega
    have hb := List.getElem?_eq_getElem hlt
    generalize d.bytes[s.index] = b at hb
    by_cases hover : 2 ^ 32 ≤ s.shift + 7
    · rw [Loop.run_error (L := lebLoop d) hmore (lebStep_overflow hb hover)]
      exact iff_of_false nofun fun h => absurd h.2 (by omega)
    · have hstep := lebStep_eq_ok.mpr ⟨hb, Nat.lt_of_not_le hover, rfl⟩
      rw [Loop.run_step (L := lebLoop d) hmore hstep, unended_cons hb]
      cases hstop : lebStop b with
      | true =>
        rw [Loop.run_done rfl]
        exact iff_of_false nofun fun h => absurd h.1.1 (by decide)
      | false =>
        have hrest := ih ⟨s.index + 1, s.delta ||| lebShift b s.shift, s.shift + 7, true⟩
          (by simp only; omega) rfl (Nat.lt_of_not_le hover)
        rw [bind_ok_eq_error]
        refine hrest.trans (and_congr (and_iff_right rfl).symm ?_)
        simp only
        omega

section Readers

variable {d : Data} {k : Nat}

/-- **The loops run past the end of the data** iff no byte ends the number and the shift count does not
overflow on the way. -/
theorem readLEB_outOfBounds_iff :
    readLEB d k = .error .outOfBounds ↔ Unended d k ∧ 7 * (d.count - k) < 2 ^ 32 := by
  have hloop := lebLoop_outOfBounds_iff (d := d) _ ⟨k, 0, 0, true⟩ rfl rfl (Nat.two_pow_pos 32)
  rw [Nat.zero_add] at hloop
  exact bind_ok_eq_error.trans hloop

/-- A number that ends is not unended. -/
theorem not_unended {bs : List UInt8} (hbs : d.Holds k bs) (hleb : IsLeb bs) : ¬ Unended d k := by
  induction hleb generalizing k with
  | last hstop =>
    rw [unended_cons (holds_cons.mp hbs).1, hstop]
    exact fun h => absurd h.1 (by decide)
  | more _ _ ih =>
    obtain ⟨hb, hrest⟩ := holds_cons.mp hbs
    rw [unended_cons hb]
    exact fun h => ih hrest h.2

theorem readLEB_traps (h : Unended d k) : ∃ trap, readLEB d k = .error trap := by
  cases hread : readLEB d k with
  | error trap => exact ⟨trap, rfl⟩
  | ok t =>
    obtain ⟨bs, hbs, hleb, -, -⟩ := readLEB_eq_ok.mp hread
    exact absurd h (not_unended hbs hleb)

/-- What the loops make of a number that ends. -/
theorem readLEB_of_holds {bs : List UInt8} (hbs : d.Holds k bs) (hleb : IsLeb bs)
    (hlength : bs.length < 2 ^ 29) :
    readLEB d k = .ok ⟨k + bs.length, UInt64.ofNat (lebNat bs), 7 * bs.length, false⟩ :=
  readLEB_eq_ok.mpr ⟨bs, hbs, hleb, by omega, rfl⟩

/-- The address can only overflow. -/
theorem finish_ne_outOfBounds (t : LEBState) (a : UInt64) (fs : List FunctionStart) :
    t.finish k a fs ≠ .error .outOfBounds := by
  refine bind_ne_error ?_ fun _ => nofun
  unfold plus
  split
  · nofun
  · nofun

theorem readDelta_eq_error {a : UInt64} :
    readDelta d k a = .error .outOfBounds ↔ readLEB d k = .error .outOfBounds := by
  rw [readDelta_eq]
  cases readLEB d k with
  | error trap => rw [error_bind, Except.error.injEq, Except.error.injEq]
  | ok t => exact iff_of_false (finish_ne_outOfBounds t a []) nofun

variable {M : Type} [OperationCodeMetadata M] {metadata : M}

/-- **The three readers agree.** A number of up to `2 ^ 29` bytes gives each of them its value modulo
`2 ^ 64` and takes all of its bytes; the third one then adds it to the address, which can overflow. Where
no byte ends the number each of them traps, and it is by running past the end of the data unless the
shift count overflows before. -/
theorem ulebReaders_agree (hunsigned : OperationCodeMetadata.trailingLEBType metadata = .unsigned)
    (d : Data) (k : Nat) (address : UInt64) :
    (∀ bs, d.Holds k bs → IsLeb bs → bs.length < 2 ^ 29 →
      (readULEB128 d k).map Field.value = .ok ⟨UInt64.ofNat (lebNat bs), false, bs.length⟩ ∧
      (trailingLEB metadata d k).map (fun r => (r.1.value, r.2)) =
        .ok (⟨bs.length, UInt64.ofNat (lebNat bs), false⟩, k + bs.length) ∧
      readDelta d k address = (plus address (UInt64.ofNat (lebNat bs))).map fun a =>
        ⟨k + bs.length, UInt64.ofNat (lebNat bs), 7 * bs.length, false, a, [⟨k, bs.length, a⟩]⟩) ∧
    (Unended d k → (∃ trap, readULEB128 d k = .error trap) ∧
      (∃ trap, trailingLEB metadata d k = .error trap) ∧ ∃ trap, readDelta d k address = .error trap) ∧
    (readULEB128 d k = .error .outOfBounds ↔ Unended d k ∧ 7 * (d.count - k) < 2 ^ 32) ∧
    (trailingLEB metadata d k = .error .outOfBounds ↔ Unended d k ∧ 7 * (d.count - k) < 2 ^ 32) ∧
    (readDelta d k address = .error .outOfBounds ↔ Unended d k ∧ 7 * (d.count - k) < 2 ^ 32) := by
  refine ⟨fun bs hbs hleb hlength => ?_, fun hunended => ?_, ?_, ?_, ?_⟩
  · have hread := readLEB_of_holds hbs hleb hlength
    refine ⟨?_, ?_, ?_⟩
    · rw [readULEB128, hread, ok_bind, Nat.add_sub_cancel_left]
      rfl
    · simp only [trailingLEB, hread, ok_bind, hunsigned, Nat.add_sub_cancel_left]
      rfl
    · rw [readDelta_eq, hread, ok_bind, LEBState.finish]
      cases plus address (UInt64.ofNat (lebNat bs)) with
      | error trap => rfl
      | ok a =>
        simp only [ok_bind, Nat.add_sub_cancel_left, List.nil_append]
        rfl
  · obtain ⟨trap, htrap⟩ := readLEB_traps hunended
    refine ⟨⟨trap, ?_⟩, ⟨trap, ?_⟩, ⟨trap, ?_⟩⟩
    · rw [readULEB128, htrap, error_bind]
    · rw [trailingLEB, htrap, error_bind]
    · rw [readDelta_eq, htrap, error_bind]
  · exact bind_ok_eq_error.trans readLEB_outOfBounds_iff
  · exact bind_ok_eq_error.trans readLEB_outOfBounds_iff
  · exact readDelta_eq_error.trans readLEB_outOfBounds_iff

end Readers

/-- The rebase opcode whose operand the second reader takes in the two instances below. -/
def addAddrMetadata : RebaseOperationCodeMetadata := ⟨.addAddrULEB, .rawValue 0⟩

/-- The number 200 in the middle of a buffer, and the two bytes behind it that do not end. -/
theorem ulebReaders_agree_twoHundred :
    (readULEB128 ⟨16, [0x05, 0xc8, 0x01, 0xff, 0x80]⟩ 1).map Field.value = .ok ⟨200, false, 2⟩ ∧
    (trailingLEB addAddrMetadata ⟨16, [0x05, 0xc8, 0x01, 0xff, 0x80]⟩ 1).map (fun r => (r.1.value, r.2)) =
      .ok (⟨2, 200, false⟩, 3) ∧
    readDelta ⟨16, [0x05, 0xc8, 0x01, 0xff, 0x80]⟩ 1 0x1000 =
      .ok ⟨3, 200, 14, false, 0x10c8, [⟨1, 2, 0x10c8⟩]⟩ ∧
    readULEB128 ⟨16, [0x05, 0xc8, 0x01, 0xff, 0x80]⟩ 3 = .error .outOfBounds := by
  have hbytes : (⟨16, [0x05, 0xc8, 0x01, 0xff, 0x80]⟩ : Data).Holds 1 [0xc8, 0x01] := by decide
  have hleb : IsLeb [0xc8, 0x01] := .more rfl (.last rfl)
  have hunsigned : OperationCodeMetadata.trailingLEBType addAddrMetadata = .unsigned := rfl
  have hread := ulebReaders_agree hunsigned ⟨16, [0x05, 0xc8, 0x01, 0xff, 0x80]⟩ 1 0x1000
  have hunended := ulebReaders_agree hunsigned ⟨16, [0x05, 0xc8, 0x01, 0xff, 0x80]⟩ 3 0x1000
  obtain ⟨huleb, htrailing, hdelta⟩ := hread.1 _ hbytes hleb (by decide)
  refine ⟨huleb, htrailing, hdelta, hunended.2.2.1.mpr ⟨?_, by decide⟩⟩
  intro b hb
  have hcases : b = 0xff ∨ b = 0x80 := by simpa using hb
  rcases hcases with rfl | rfl
  · decide
  · decide

/-- **A number that does not end and does not reach the end of its data**: the shift count of its last
byte is `7 * 613566756 = 2 ^ 32 - 4`, and the next one is no `UInt32`. -/
theorem ulebReaders_shift_overflow :
    Unended ⟨0, List.replicate 613566757 0x80⟩ 0 ∧
    readULEB128 ⟨0, List.replicate 613566757 0x80⟩ 0 ≠ .error .outOfBounds ∧
    trailingLEB addAddrMetadata ⟨0, List.replicate 613566757 0x80⟩ 0 ≠ .error .outOfBounds ∧
    readDelta ⟨0, List.replicate 613566757 0x80⟩ 0 0 ≠ .error .outOfBounds := by
  have hread : readLEB ⟨0, List.replicate 613566757 0x80⟩ 0 ≠ .error .outOfBounds := by
    rw [Ne, readLEB_outOfBounds_iff, count_mk, List.length_replicate]
    exact fun h => absurd h.2 (by decide)
  refine ⟨?_, ?_, ?_, ?_⟩
  · unfold Unended
    rw [List.drop_zero]
    intro b hb
    rw [List.eq_of_mem_replicate hb]
    exact UInt8.le_refl _
  · exact fun h => hread (bind_ok_eq_error.mp h)
  · exact fun h => hread (bind_ok_eq_error.mp h)
  · exact fun h => hread (readDelta_eq_error.mp h)

end Mocha
