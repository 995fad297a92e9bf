import Mocha.Components.OperationCode

/-!
# Signed operands

The addend of a bind stream is a signed LEB128 number. `OperationCodeComponent.operationCodes` and
`InterpreterUtils.readSLEB128` set every bit above the run of the number, without looking at its sign.

**`addend_decoded_iff`**: the number is right iff it is negative or its run takes all of ten bytes.
-/

namespace Mocha

open Lib Data OperationCodeMetadata

/-- `bs` is a signed LEB128 encoding of the 64-bit number `v`, minimal or not. -/
structure IsSleb (bs : List UInt8) (v : Int) : Prop where
  run : IsLeb bs
  length : bs.length ≤ 10
  value : slebInt bs = v
  lower : -2 ^ 63 ≤ v
  upper : v < 2 ^ 63

/-- The metadata of `BIND_OPCODE_SET_ADDEND_SLEB`. -/
def addendMetadata (immediate : UInt8) : BindOperationCodeMetadata :=
  ⟨.setAddEndSLEB, .rawValue immediate, false⟩

theorem addend_init (immediate : UInt8) :
    (init 0x60 immediate : Run BindOperationCodeMetadata) = .ok (addendMetadata immediate) := rfl

/-- An addend is accepted with one operand. -/
theorem addend_accepted {byte : UInt8} {bs : List UInt8} {v : Int} (hbyte : byte &&& 0xf0 = 0x60)
    (hbs : IsSleb bs v) :
    (Instruction.mk byte [bs] none).Accepted (addendMetadata (byte &&& 0x0f)) := by
  refine ⟨?_, rfl, ?_, rfl, nofun⟩
  · unfold Instruction.opcode Instruction.immediate
    rw [hbyte]
    exact addend_init _
  · intro o ho
    rw [List.mem_singleton] at ho
    subst ho
    have hle := hbs.length
    exact ⟨hbs.run, by omega⟩

theorem IsSleb.raw_eq_iff {bs : List UInt8} {v : Int} (h : IsSleb bs v) :
    UInt64.ofNat (lebNat bs) ||| onesFrom (7 * bs.length) = UInt64.ofInt v ↔
      v < 0 ∨ bs.length = 10 := by
  have hle := h.length
  rw [← h.value, or_onesFrom_eq_iff]
  omega

theorem readSLEB128_holds {d : Data} {k : Nat} {bs : List UInt8} {v : Int} (h : IsSleb bs v)
    (hd : d.Holds k bs) : readSLEB128 d k =
      .ok ⟨⟨UInt64.ofNat (lebNat bs) ||| onesFrom (7 * bs.length), true, bs.length⟩,
        Span.of (d.startIndex + k) bs.length⟩ := by
  have hle := h.length
  have hread := readLEB_eq_ok.mpr ⟨bs, hd, h.run, by omega, rfl⟩
  unfold readSLEB128
  rw [hread, ok_bind]
  simp only [Nat.add_sub_cancel_left, onesFrom, pure_eq_ok]

/-- **When an addend is decoded as signed LEB128.** For every bind stream with the addend `v` in it,
written in any way, the parser returns. The operand it stores and what `readSLEB128` returns there both
have the bits of `v` and the length of its encoding iff `v` is negative or is written in ten bytes. -/
theorem addend_decoded_iff {d : Data} {pre post : List Instruction} {byte : UInt8} {bs : List UInt8}
    {v : Int} (hothers : ∀ i ∈ pre ++ post, ∃ m : BindOperationCodeMetadata, i.Accepted m)
    (hbyte : byte &&& 0xf0 = 0x60) (hbs : IsSleb bs v)
    (hd : d.bytes = (pre ++ ⟨byte, [bs], none⟩ :: post).flatMap Instruction.bytes) :
    ∃ ops op leb x, operationCodes BindOperationCodeMetadata d = .ok ops ∧
      ops[pre.length]? = some op ∧ op.lebValues = [leb] ∧
      readSLEB128 d ((pre.flatMap Instruction.bytes).length + 1) = .ok x ∧
      ((leb.value.raw = UInt64.ofInt v ∧ leb.value.byteCount = bs.length) ∧
          (x.value.rawValue = UInt64.ofInt v ∧ x.value.byteCount = bs.length) ↔
        v < 0 ∨ bs.length = 10) := by
  have haccepted : ∀ i ∈ pre ++ ⟨byte, [bs], none⟩ :: post,
      ∃ m : BindOperationCodeMetadata, i.Accepted m := by
    intro i hi
    rcases List.mem_append.mp hi with hi | hi
    · exact hothers i (List.mem_append_left post hi)
    · rcases List.mem_cons.mp hi with rfl | hi
      · exact ⟨_, addend_accepted hbyte hbs⟩
      · exact hothers i (List.mem_append_right pre hi)
  obtain ⟨ops, hparse⟩ := parsesFrom_of_accepted haccepted (holds_of_eq hd)
    (by rw [Nat.zero_add, ← hd]; rfl)
  obtain ⟨m, hi, hholds, hop⟩ := hparse.getElem?
  rw [Nat.zero_add] at hholds hop
  have hm : m = addendMetadata (byte &&& 0x0f) := by
    have hinit := hi.metadata
    unfold Instruction.opcode Instruction.immediate at hinit
    rw [hbyte, addend_init, Except.ok.injEq] at hinit
    exact hinit.symm
  subst hm
  obtain ⟨-, hrun⟩ := holds_cons.mp hholds
  rw [Option.getD_none, List.append_nil, List.flatten_singleton] at hrun
  refine ⟨ops, _, _, _, operationCodes_eq_ok.mpr ⟨_, hparse⟩, hop, rfl, readSLEB128_holds hbs hrun, ?_⟩
  rw [← hbs.raw_eq_iff]
  constructor
  · exact fun h => h.1.1
  · exact fun h => ⟨⟨h, rfl⟩, h, rfl⟩

/-- The addend -1 in a stream of its own. -/
theorem addend_decoded_iff_minusOne :
    ∃ ops op leb x, operationCodes BindOperationCodeMetadata ⟨0, [0x60, 0x7f]⟩ = .ok ops ∧
      ops[0]? = some op ∧ op.lebValues = [leb] ∧ readSLEB128 ⟨0, [0x60, 0x7f]⟩ 1 = .ok x ∧
      leb.value.raw = UInt64.ofInt (-1) ∧ x.value.rawValue = UInt64.ofInt (-1) := by
  have hsleb : IsSleb [0x7f] (-1) := ⟨.last rfl, by decide, by decide, by decide, by decide⟩
  obtain ⟨ops, op, leb, x, hops, hop, hleb, hx, hiff⟩ :=
    @addend_decoded_iff ⟨0, [0x60, 0x7f]⟩ [] [] 0x60 [0x7f] (-1) nofun rfl hsleb rfl
  obtain ⟨⟨hraw, -⟩, hraw', -⟩ := hiff.mpr (.inl (by decide))
  exact ⟨ops, op, leb, x, hops, hop, hleb, hx, hraw, hraw'⟩

/-- The addend 1 in one byte is read as -127. -/
theorem addend_one_misread :
    IsSleb [0x01] 1 ∧
      (operationCodes BindOperationCodeMetadata ⟨0, [0x60, 0x01]⟩).map
        (fun ops => ops.map fun op => op.lebValues.map fun leb => leb.value.raw) =
          .ok [[UInt64.ofInt (-127)]] ∧
      (readSLEB128 ⟨0, [0x60, 0x01]⟩ 1).map (fun x => x.value.rawValue) =
        .ok (UInt64.ofInt (-127)) :=
  ⟨⟨.last rfl, by decide, by decide, by decide, by decide⟩, by decide +kernel, by decide +kernel⟩

end Mocha
