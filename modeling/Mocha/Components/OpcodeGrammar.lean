import Mocha.Components.OperationCode

/-!
# The grammar of opcode streams

The operands of the rebase and bind opcodes, tabulated from the opcode byte alone: `rebaseOperands`
and `bindOperands` give, for an opcode and an immediate the format has, the number of LEB operands
and whether a string follows; the operand of bind opcode 0x60 is signed, and no other. An `Instruction`
is valid when it has those operands, and a stream is a concatenation of valid instructions.

The metadata types agree with the tables on every byte (`rebase_follows`, `bind_follows`), valid
instructions are prefix-free (`valid_unique`), and so **`operationCodes_grammar`**: on buffers
shorter than `2 ^ 29` bytes the parser returns exactly on streams, and what it returns is the only
reading of the buffer.
-/

namespace Mocha

open Lib Data OperationCodeMetadata

/-! ## The tables -/

/-- The operands of a rebase opcode. -/
def rebaseOperands (opcode immediate : UInt8) : Option (Nat × Bool) :=
  match opcode.toNat, immediate.toNat with
  | 0x00, _ => some (0, false)
  | 0x10, 1 | 0x10, 2 | 0x10, 3 => some (0, false)
  | 0x20, _ | 0x30, _ => some (1, false)
  | 0x40, _ | 0x50, _ => some (0, false)
  | 0x60, _ | 0x70, _ => some (1, false)
  | 0x80, _ => some (2, false)
  | _, _ => none

/-- The operands of a bind opcode. -/
def bindOperands (opcode immediate : UInt8) : Option (Nat × Bool) :=
  match opcode.toNat, immediate.toNat with
  | 0x00, _ | 0x10, _ => some (0, false)
  | 0x20, _ => some (1, false)
  | 0x30, _ => some (0, false)
  | 0x40, _ => some (0, true)
  | 0x50, 1 | 0x50, 2 | 0x50, 3 => some (0, false)
  | 0x60, _ | 0x70, _ | 0x80, _ => some (1, false)
  | 0x90, _ => some (0, false)
  | 0xa0, _ => some (1, false)
  | 0xb0, _ => some (0, false)
  | 0xc0, _ => some (2, false)
  | 0xd0, 0 => some (1, false)
  | 0xd0, 1 => some (0, false)
  | _, _ => none

/-- Whether the operand of a bind opcode is signed: that of `BIND_OPCODE_SET_ADDEND_SLEB` is. -/
def bindSigned (opcode : UInt8) : Bool := opcode == 0x60

/-- The tables of a metadata type, and the opcode and the immediate a metadata value stands for. -/
class OpcodeFormat (M : Type) where
  operands : UInt8 → UInt8 → Option (Nat × Bool)
  signed : UInt8 → Bool
  opcode : M → UInt8
  immediate : M → UInt8

instance : OpcodeFormat RebaseOperationCodeMetadata where
  operands := rebaseOperands
  signed _ := false
  opcode m := m.operationType.rawValue
  immediate m :=
    match m.immediateType with
    | .rebaseTypePointer => 1
    | .rebaseTypeTextAbsolute32 => 2
    | .rebaseTypeTextPCRel32 => 3
    | .rawValue value => value

instance : OpcodeFormat BindOperationCodeMetadata where
  operands := bindOperands
  signed := bindSigned
  opcode m := m.bindOperationType.rawValue
  immediate m :=
    match m.bindImmediateType with
    | .threadedSubSetBindOrdinalTableSizeULEB => 0
    | .threadedSubApple => 1
    | .bindTypePointer => 1
    | .bindTypeTextAbsolute32 => 2
    | .bindTypeTextPCRel32 => 3
    | .rawValue value => value

section Generic

variable {M : Type} [OperationCodeMetadata M] [OpcodeFormat M]

/-- The metadata of one byte agrees with the tables. -/
def FollowsAt (M : Type) [OperationCodeMetadata M] [OpcodeFormat M] (b : UInt8) : Prop :=
  match (init (b &&& 0xf0) (b &&& 0x0f) : Run M) with
  | .ok m => OpcodeFormat.operands M (b &&& 0xf0) (b &&& 0x0f) =
      some (numberOfTrailingLEB m, hasTrailingCString m) ∧
      OpcodeFormat.opcode m = b &&& 0xf0 ∧ OpcodeFormat.immediate m = b &&& 0x0f ∧
      (trailingLEBType m == .signed) = OpcodeFormat.signed M (b &&& 0xf0)
  | .error _ => OpcodeFormat.operands M (b &&& 0xf0) (b &&& 0x0f) = none

instance (b : UInt8) : Decidable (FollowsAt M b) :=
  match h : (init (b &&& 0xf0) (b &&& 0x0f) : Run M) with
  | .ok m => decidable_of_iff (OpcodeFormat.operands M (b &&& 0xf0) (b &&& 0x0f) =
      some (numberOfTrailingLEB m, hasTrailingCString m) ∧
      OpcodeFormat.opcode m = b &&& 0xf0 ∧ OpcodeFormat.immediate m = b &&& 0x0f ∧
      (trailingLEBType m == .signed) = OpcodeFormat.signed M (b &&& 0xf0))
      (by rw [FollowsAt, h])
  | .error _ => decidable_of_iff (OpcodeFormat.operands M (b &&& 0xf0) (b &&& 0x0f) = none)
      (by rw [FollowsAt, h])

theorem followsAt_of_fin (h : ∀ n : Fin 256, FollowsAt M (UInt8.ofFin n)) (b : UInt8) :
    FollowsAt M b :=
  h b.toFin

theorem rebase_follows : ∀ b, FollowsAt RebaseOperationCodeMetadata b :=
  followsAt_of_fin (by decide +kernel)

theorem bind_follows : ∀ b, FollowsAt BindOperationCodeMetadata b :=
  followsAt_of_fin (by decide +kernel)

/-! ## Streams -/

/-- The instruction has the operands the table asks for. -/
structure Instruction.Valid (operands : UInt8 → UInt8 → Option (Nat × Bool)) (i : Instruction) :
    Prop where
  shape : operands i.opcode i.immediate = some (i.operands.length, i.string.isSome)
  operands : ∀ o ∈ i.operands, IsLeb o
  string : ∀ s ∈ i.string, IsCString s

/-- `bytes` is the concatenation of the valid instructions `is`. -/
structure IsStream (operands : UInt8 → UInt8 → Option (Nat × Bool)) (is : List Instruction)
    (bytes : List UInt8) : Prop where
  valid : ∀ i ∈ is, i.Valid operands
  bytes : is.flatMap Instruction.bytes = bytes

/-- As many LEB operands, then the same bytes: the same operands. -/
theorem operands_unique : ∀ {os ps : List (List UInt8)} {x y : List UInt8},
    os.length = ps.length → (∀ o ∈ os, IsLeb o) → (∀ p ∈ ps, IsLeb p) →
      os.flatten ++ x = ps.flatten ++ y → os = ps ∧ x = y
  | [], [], _, _, _, _, _, h => ⟨rfl, h⟩
  | [], _ :: _, _, _, hlen, _, _, _ => by cases hlen
  | _ :: _, [], _, _, hlen, _, _, _ => by cases hlen
  | o :: os, p :: ps, x, y, hlen, ho, hp, h => by
    rw [List.flatten_cons, List.flatten_cons, List.append_assoc, List.append_assoc] at h
    obtain ⟨rfl, hrest⟩ := (ho o List.mem_cons_self).unique (hp p List.mem_cons_self) h
    obtain ⟨rfl, hxy⟩ := operands_unique (Nat.succ_inj.mp hlen)
      (fun o' ho' => ho o' (List.mem_cons_of_mem _ ho'))
      (fun p' hp' => hp p' (List.mem_cons_of_mem _ hp')) hrest
    exact ⟨rfl, hxy⟩

/-- **Valid instructions are prefix-free.** -/
theorem valid_unique {operands : UInt8 → UInt8 → Option (Nat × Bool)} {i j : Instruction}
    (hi : i.Valid operands) (hj : j.Valid operands) {x y : List UInt8}
    (h : i.bytes ++ x = j.bytes ++ y) : i = j ∧ x = y := by
  obtain ⟨b, os, s⟩ := i
  obtain ⟨c, ps, t⟩ := j
  simp only [Instruction.bytes, List.cons_append, List.append_assoc] at h
  obtain ⟨rfl, htail⟩ := List.cons_eq_cons.mp h
  have hshape := hi.shape.symm.trans hj.shape
  simp only [Option.some.injEq, Prod.mk.injEq] at hshape
  obtain ⟨hlen, hsome⟩ := hshape
  obtain ⟨rfl, hstring⟩ := operands_unique hlen hi.operands hj.operands htail
  cases s with
  | none =>
    cases t with
    | none => exact ⟨rfl, hstring⟩
    | some t => cases hsome
  | some s =>
    cases t with
    | none => cases hsome
    | some t =>
      obtain ⟨rfl, hxy⟩ := (hi.string s rfl).unique (hj.string t rfl) hstring
      exact ⟨rfl, hxy⟩

/-- **A buffer has at most one reading.** -/
theorem IsStream.unique {operands : UInt8 → UInt8 → Option (Nat × Bool)} :
    ∀ {is js : List Instruction} {bytes : List UInt8}, IsStream operands is bytes →
      IsStream operands js bytes → is = js
  | [], [], _, _, _ => rfl
  | [], j :: js, _, hi, hj => by
    have h := hi.bytes.trans hj.bytes.symm
    rw [List.flatMap_nil, List.flatMap_cons, Instruction.bytes, List.cons_append] at h
    cases h
  | i :: is, [], _, hi, hj => by
    have h := hi.bytes.trans hj.bytes.symm
    rw [List.flatMap_nil, List.flatMap_cons, Instruction.bytes, List.cons_append] at h
    cases h
  | i :: is, j :: js, _, hi, hj => by
    have h := hi.bytes.trans hj.bytes.symm
    rw [List.flatMap_cons, List.flatMap_cons] at h
    obtain ⟨rfl, hrest⟩ :=
      valid_unique (hi.valid i List.mem_cons_self) (hj.valid j List.mem_cons_self) h
    have htail : is = js := IsStream.unique
      ⟨fun i' hi' => hi.valid i' (List.mem_cons_of_mem _ hi'), hrest⟩
      ⟨fun j' hj' => hj.valid j' (List.mem_cons_of_mem _ hj'), rfl⟩
    rw [htail]

/-! ## The parser follows the grammar -/

/-- The number of bytes an instruction takes up: the opcode, the operands and the string. -/
def OperationCode.byteLength (op : OperationCode M) : Nat :=
  1 + (op.lebValues.map fun v => v.value.byteCount).sum +
    (op.cstringData.map Data.count).getD 0

/-- The parsed code says what the instruction says. Which operands are signed follows from the opcode
byte. -/
structure Shows (op : OperationCode M) (i : Instruction) : Prop where
  opcode : OpcodeFormat.opcode op.codeMetadata.value = i.opcode
  immediate : OpcodeFormat.immediate op.codeMetadata.value = i.immediate
  counts : op.lebValues.map (fun v => v.value.byteCount) = i.operands.map List.length
  values : List.Forall₂ (fun v o => v.value.isSigned = OpcodeFormat.signed M i.opcode ∧
    (OpcodeFormat.signed M i.opcode = false → v.value.raw.toNat = lebNat o % 2 ^ 64))
      op.lebValues i.operands
  string : op.cstringData.map Data.bytes = i.string
  length : op.byteLength = i.bytes.length

theorem followsAt_ok {b : UInt8} (hf : FollowsAt M b) {m : M}
    (h : init (b &&& 0xf0) (b &&& 0x0f) = .ok m) :
    OpcodeFormat.operands M (b &&& 0xf0) (b &&& 0x0f) =
        some (numberOfTrailingLEB m, hasTrailingCString m) ∧
      OpcodeFormat.opcode m = b &&& 0xf0 ∧ OpcodeFormat.immediate m = b &&& 0x0f ∧
      (trailingLEBType m == .signed) = OpcodeFormat.signed M (b &&& 0xf0) := by
  unfold FollowsAt at hf
  rw [h] at hf
  exact hf

theorem Instruction.Accepted.valid (hf : ∀ b, FollowsAt M b) {i : Instruction} {m : M}
    (h : i.Accepted m) : i.Valid (OpcodeFormat.operands M) := by
  obtain ⟨hshape, -, -⟩ := followsAt_ok (hf i.byte) h.metadata
  rw [← h.count, ← h.hasString] at hshape
  exact ⟨hshape, fun o ho => (h.operands o ho).1, h.string⟩

theorem length_le_flatten {o : List UInt8} : ∀ {os : List (List UInt8)}, o ∈ os →
    o.length ≤ os.flatten.length
  | [], h => absurd h List.not_mem_nil
  | p :: os, h => by
    rw [List.flatten_cons, List.length_append]
    rcases List.mem_cons.mp h with rfl | h
    · omega
    · have ih := length_le_flatten h
      omega

/-- In a buffer shorter than `2 ^ 29` bytes no operand overflows the shift count. -/
theorem Instruction.Valid.accepted (hf : ∀ b, FollowsAt M b) {i : Instruction}
    (h : i.Valid (OpcodeFormat.operands M)) (hsize : i.bytes.length < 2 ^ 29) :
    ∃ m : M, i.Accepted m := by
  cases hinit : (init (i.byte &&& 0xf0) (i.byte &&& 0x0f) : Run M) with
  | error e =>
    have hnone := hf i.byte
    unfold FollowsAt at hnone
    rw [hinit] at hnone
    exact absurd (hnone.symm.trans h.shape) nofun
  | ok m =>
    obtain ⟨hshape, -, -⟩ := followsAt_ok (hf i.byte) hinit
    have hboth := hshape.symm.trans h.shape
    simp only [Option.some.injEq, Prod.mk.injEq] at hboth
    refine ⟨m, hinit, hboth.1.symm, fun o ho => ⟨h.operands o ho, ?_⟩, hboth.2.symm, h.string⟩
    have hle := length_le_flatten ho
    have hlen := i.length_bytes
    omega

theorem decoded_shows (hf : ∀ b, FollowsAt M b) {i : Instruction} {m : M} {d : Data} {k : Nat}
    (hi : i.Accepted m) (h : d.Holds k i.bytes) : Shows (i.decoded m d k) i := by
  obtain ⟨-, hop, himm, hsigned⟩ := followsAt_ok (hf i.byte) hi.metadata
  have hvalues := lebFields_values m d (k + 1) i.operands
  rw [hsigned] at hvalues
  have hcounts := lebFields_counts m d (k + 1) i.operands
  obtain ⟨_, hrest⟩ := holds_cons.mp h
  obtain ⟨_, hstring⟩ := holds_append.mp hrest
  refine ⟨hop, himm, hcounts, hvalues, ?_, ?_⟩
  · cases hs : i.string with
    | none => simp only [Instruction.decoded, hs, Option.map_none]
    | some s =>
      rw [hs] at hstring
      simp only [Instruction.decoded, hs, Option.map_some, Option.some.injEq]
      exact hstring.2
  · rw [OperationCode.byteLength, Instruction.length_bytes]
    simp only [Instruction.decoded, hcounts, List.length_flatten]
    cases hs : i.string with
    | none => rfl
    | some s =>
      rw [hs] at hstring
      have hcount : (d.window (k + 1 + i.operands.flatten.length) s.length).count = s.length :=
        window_count d hstring.1
      rw [List.length_flatten] at hcount
      simp only [Option.map_some, Option.getD_some, hcount]

/-- What a parse says about the bytes. -/
theorem ParsesFrom.stream (hf : ∀ b, FollowsAt M b) {d : Data} {k : Nat} {is : List Instruction}
    {ops : List (OperationCode M)} (h : ParsesFrom d k is ops) :
    IsStream (OpcodeFormat.operands M) is (d.bytes.drop k) ∧ List.Forall₂ Shows ops is := by
  induction h with
  | nil => exact ⟨⟨nofun, (List.drop_length).symm⟩, .nil⟩
  | @cons k i m is ops hi hholds _ ih =>
    obtain ⟨hstream, hall⟩ := ih
    refine ⟨⟨?_, ?_⟩, .cons (decoded_shows hf hi hholds) hall⟩
    · intro j hj
      rcases List.mem_cons.mp hj with rfl | hj
      · exact hi.valid hf
      · exact hstream.valid j hj
    · rw [List.flatMap_cons, hstream.bytes]
      have hbytes : (d.bytes.drop k).take i.bytes.length = i.bytes := hholds.2
      rw [← List.drop_drop]
      calc i.bytes ++ (d.bytes.drop k).drop i.bytes.length
          = (d.bytes.drop k).take i.bytes.length ++ (d.bytes.drop k).drop i.bytes.length := by
            rw [hbytes]
        _ = d.bytes.drop k := List.take_append_drop _ _

/-- The parser returns exactly on streams, and what it returns is the one reading of the buffer. -/
structure AcceptsExactly (M : Type) [OperationCodeMetadata M] [OpcodeFormat M] (d : Data) : Prop where
  returns : (∃ ops, operationCodes M d = .ok ops) ↔
    ∃ is, IsStream (OpcodeFormat.operands M) is d.bytes
  result : ∀ ops, operationCodes M d = .ok ops →
    ∃ is, IsStream (OpcodeFormat.operands M) is d.bytes ∧
      (∀ js, IsStream (OpcodeFormat.operands M) js d.bytes → js = is) ∧
      List.Forall₂ Shows ops is

theorem acceptsExactly (hf : ∀ b, FollowsAt M b) {d : Data} (hd : d.count < 2 ^ 29) :
    AcceptsExactly M d := by
  refine ⟨⟨?_, ?_⟩, ?_⟩
  · rintro ⟨ops, hops⟩
    obtain ⟨is, hparse⟩ := operationCodes_eq_ok.mp hops
    exact ⟨is, (hparse.stream hf).1⟩
  · rintro ⟨is, hstream⟩
    -- no instruction is longer than the buffer
    have haccepted : ∀ i ∈ is, ∃ m : M, i.Accepted m := by
      intro i hi
      refine (hstream.valid i hi).accepted hf (Nat.lt_of_le_of_lt ?_ hd)
      rw [Data.count, ← hstream.bytes]
      exact (List.sublist_flatten_of_mem (List.mem_map_of_mem hi)).length_le
    obtain ⟨ops, hops⟩ := parsesFrom_of_accepted haccepted (k := 0)
      (holds_of_eq hstream.bytes.symm) (by rw [hstream.bytes, Nat.zero_add]; rfl)
    exact ⟨ops, operationCodes_eq_ok.mpr ⟨is, hops⟩⟩
  · intro ops hops
    obtain ⟨is, hparse⟩ := operationCodes_eq_ok.mp hops
    obtain ⟨hstream, hall⟩ := hparse.stream hf
    exact ⟨is, hstream, fun js hjs => hjs.unique hstream, hall⟩

end Generic

/-- **The opcode parsers accept exactly their grammar.** -/
theorem operationCodes_grammar (d : Data) (hd : d.count < 2 ^ 29) :
    AcceptsExactly RebaseOperationCodeMetadata d ∧ AcceptsExactly BindOperationCodeMetadata d :=
  ⟨acceptsExactly rebase_follows hd, acceptsExactly bind_follows hd⟩

/-- Set the type to pointer, set the segment and the offset 300, done. -/
theorem operationCodes_grammar_sample :
    (Data.mk 0x4000 [0x11, 0x22, 0xac, 0x02, 0x00]).count < 2 ^ 29 ∧
      AcceptsExactly RebaseOperationCodeMetadata ⟨0x4000, [0x11, 0x22, 0xac, 0x02, 0x00]⟩ ∧
      AcceptsExactly BindOperationCodeMetadata ⟨0x4000, [0x11, 0x22, 0xac, 0x02, 0x00]⟩ :=
  ⟨by decide, operationCodes_grammar _ (by decide)⟩

end Mocha
