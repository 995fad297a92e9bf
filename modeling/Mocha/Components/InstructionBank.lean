import Mocha.Helpers.Text
import Mocha.Lib.Packed

/-!
# The instruction bank (`CapStoneInstructionBank` in `CapStoneHelper.m`)

A section of code has too many instructions to keep an object for each, so `CapStoneInstructionBank`
spreads an instruction over six byte buffers: its texts one behind the other in a string bank, and the
place of the texts, their two lengths, the address and the size in a buffer each, of 8, 8, 8, 8 and 2
bytes an instruction. `instructionAtIndex` puts one together again by pointer arithmetic. A read outside
a buffer is undefined in C; here it is `none`.

`Represents` is the invariant that ties the six buffers to the calls that filled them. Every
`appendInstruction` keeps it (`Represents.append`), so it holds after every sequence of calls
(`represents_appendInstructions`). **`instructionBank_returns`**: the bank returns what was appended.
-/

namespace Mocha

open Lib

/-! ## The bank -/

/-- `cs_insn`, as far as the bank reads it. Both texts are `char` arrays that end at a NUL. -/
structure CsInsn where
  mnemonic : List UInt8
  opStr : List UInt8
  size : UInt16
  mnemonic_ends : 0 ∈ mnemonic
  opStr_ends : 0 ∈ opStr

/-- `strlen`. -/
def strlen (s : List UInt8) : Nat := (s.takeWhile (· ≠ 0)).length

/-- `CapStoneInstruction`. A text is `nil` where its bytes are no UTF-8. -/
structure CapStoneInstruction where
  mnemonic : Option String
  operand : Option String
  startAddr : UInt64
  size : UInt16
  deriving DecidableEq, Repr

/-- `NSError`. -/
structure NSError where
  domain : String
  code : Nat
  deriving DecidableEq, Repr

/-- `CapStoneInstructionBank`. -/
structure CapStoneInstructionBank where
  instructionStringBank : List UInt8
  instructionOffsetInStringBank : List UInt8
  instructionOpStrSizes : List UInt8
  instructionMnemonicSizes : List UInt8
  instructionStartAddresses : List UInt8
  instructionSizes : List UInt8
  numberOfInstructions : Nat
  error : Option NSError

/-- `[[NSString alloc] initWithBytes:length:encoding:]` with UTF-8, on the bytes from `offset` on. -/
def initWithBytes (buffer : List UInt8) (offset length : Nat) : Option String :=
  (sliceAt buffer offset length).bind fun bytes => Data.utf8String ⟨0, bytes⟩

/-- `getNSUIntegerValueFromData:forIndex:`. -/
def getNSUIntegerValueFromData (data : List UInt8) (index : Nat) : Option Nat := wordAt 8 data index

namespace CapStoneInstructionBank

/-- `init`. -/
def init : CapStoneInstructionBank := ⟨[], [], [], [], [], [], 0, none⟩

/-- `appendInstruction:codeStartAddr:`. The numbers are stored little-endian, an `NSUInteger` in 8
bytes. -/
def appendInstruction (bank : CapStoneInstructionBank) (insn : CsInsn) (codeStartAddr : UInt64) :
    CapStoneInstructionBank :=
  let offsetInStringBank := bank.instructionStringBank.length
  let mnemonicSize := strlen insn.mnemonic
  let opStrSize := strlen insn.opStr
  { bank with
    instructionOffsetInStringBank := bank.instructionOffsetInStringBank ++ leBytes 8 offsetInStringBank
    instructionMnemonicSizes := bank.instructionMnemonicSizes ++ leBytes 8 mnemonicSize
    instructionOpStrSizes := bank.instructionOpStrSizes ++ leBytes 8 opStrSize
    instructionStringBank :=
      bank.instructionStringBank ++ insn.mnemonic.take mnemonicSize ++ insn.opStr.take opStrSize
    instructionStartAddresses := bank.instructionStartAddresses ++ leBytes 8 codeStartAddr.toNat
    instructionSizes := bank.instructionSizes ++ leBytes 2 insn.size.toNat
    numberOfInstructions := bank.numberOfInstructions + 1 }

/-- `getOffsetInStringBankForInstructionIndex:`. -/
def getOffsetInStringBank (bank : CapStoneInstructionBank) (index : Nat) : Option Nat :=
  getNSUIntegerValueFromData bank.instructionOffsetInStringBank index

/-- `getMnemonicSizeForInstructionIndex:`. -/
def getMnemonicSize (bank : CapStoneInstructionBank) (index : Nat) : Option Nat :=
  getNSUIntegerValueFromData bank.instructionMnemonicSizes index

/-- `getOperandSizeForInstructionIndex:`. -/
def getOperandSize (bank : CapStoneInstructionBank) (index : Nat) : Option Nat :=
  getNSUIntegerValueFromData bank.instructionOpStrSizes index

/-- `getInstructionSizeForInstructionIndex:`. -/
def getInstructionSize (bank : CapStoneInstructionBank) (index : Nat) : Option UInt16 :=
  (wordAt 2 bank.instructionSizes index).map UInt16.ofNat

/-- `getInstructionStartAddressForInstructionIndex:`. -/
def getInstructionStartAddress (bank : CapStoneInstructionBank) (index : Nat) : Option UInt64 :=
  (wordAt 8 bank.instructionStartAddresses index).map UInt64.ofNat

/-- `instructionAtIndex:`. -/
def instructionAtIndex (bank : CapStoneInstructionBank) (index : Nat) : Option CapStoneInstruction := do
  let offsetInStringBank ← bank.getOffsetInStringBank index
  let mnemonicSize ← bank.getMnemonicSize index
  let operandSize ← bank.getOperandSize index
  let mnemonic := initWithBytes bank.instructionStringBank offsetInStringBank mnemonicSize
  let operand := initWithBytes bank.instructionStringBank (offsetInStringBank + mnemonicSize) operandSize
  let size ← bank.getInstructionSize index
  let startAddr ← bank.getInstructionStartAddress index
  return { mnemonic, operand, startAddr, size }

end CapStoneInstructionBank

/-- The arguments of one `appendInstruction`. -/
structure AppendCall where
  insn : CsInsn
  codeStartAddr : UInt64

/-- A sequence of calls. -/
def CapStoneInstructionBank.appendInstructions (bank : CapStoneInstructionBank) (calls : List AppendCall) :
    CapStoneInstructionBank :=
  calls.foldl (fun bank c => bank.appendInstruction c.insn c.codeStartAddr) bank

/-! ## The invariant of the buffers -/

/-- The text in a `char` array. -/
def cText (s : List UInt8) : List UInt8 := s.takeWhile (· ≠ 0)

theorem take_strlen (s : List UInt8) : s.take (strlen s) = cText s :=
  (List.prefix_iff_eq_take.mp (List.takeWhile_prefix _)).symm

theorem cText_terminated {bs : List UInt8} (h : 0 ∉ bs) (rest : List UInt8) :
    cText (bs ++ 0 :: rest) = bs := by
  have hall : ∀ b ∈ bs, decide (b ≠ 0) = true := fun b hb => decide_eq_true fun hb0 => h (hb0 ▸ hb)
  rw [cText, List.takeWhile_append_of_pos hall, List.takeWhile_cons_of_neg (by simp), List.append_nil]

/-- Both texts of a call, as they stand in the string bank. -/
def AppendCall.text (c : AppendCall) : List UInt8 := cText c.insn.mnemonic ++ cText c.insn.opStr

/-- **The buffers hold the calls**: each one is the column of one of their values. -/
structure Represents (bank : CapStoneInstructionBank) (calls : List AppendCall) : Prop where
  strings : bank.instructionStringBank = (calls.map AppendCall.text).flatten
  offsets : bank.instructionOffsetInStringBank = packed 8 (Lib.offsets (calls.map AppendCall.text))
  mnemonicSizes : bank.instructionMnemonicSizes = packed 8 (calls.map fun c => strlen c.insn.mnemonic)
  opStrSizes : bank.instructionOpStrSizes = packed 8 (calls.map fun c => strlen c.insn.opStr)
  startAddresses : bank.instructionStartAddresses = packed 8 (calls.map fun c => c.codeStartAddr.toNat)
  sizes : bank.instructionSizes = packed 2 (calls.map fun c => c.insn.size.toNat)
  count : bank.numberOfInstructions = calls.length

theorem represents_init : Represents .init [] := ⟨rfl, rfl, rfl, rfl, rfl, rfl, rfl⟩

/-- An error is no part of the buffers. -/
theorem Represents.withError {bank : CapStoneInstructionBank} {calls : List AppendCall}
    (h : Represents bank calls) (error : Option NSError) : Represents { bank with error } calls :=
  ⟨h.strings, h.offsets, h.mnemonicSizes, h.opStrSizes, h.startAddresses, h.sizes, h.count⟩

/-- A column with one more value. -/
theorem packed_map_append {α : Type} (w : Nat) (f : α → Nat) (as : List α) (a : α) :
    packed w ((as ++ [a]).map f) = packed w (as.map f) ++ leBytes w (f a) := by
  rw [List.map_append, packed_append, List.map_singleton, packed_singleton]

/-- **One call** keeps the invariant. -/
theorem Represents.append {bank : CapStoneInstructionBank} {calls : List AppendCall}
    (h : Represents bank calls) (c : AppendCall) :
    Represents (bank.appendInstruction c.insn c.codeStartAddr) (calls ++ [c]) where
  strings := by
    simp only [CapStoneInstructionBank.appendInstruction, h.strings, take_strlen, List.map_append,
      List.flatten_append, List.append_assoc, List.map_singleton, List.flatten_singleton, AppendCall.text]
  offsets := by
    rw [List.map_append, List.map_singleton, offsets_append_singleton, packed_append, packed_singleton,
      ← h.offsets, ← h.strings]
    rfl
  mnemonicSizes := by
    rw [packed_map_append, ← h.mnemonicSizes]
    rfl
  opStrSizes := by
    rw [packed_map_append, ← h.opStrSizes]
    rfl
  startAddresses := by
    rw [packed_map_append, ← h.startAddresses]
    rfl
  sizes := by
    rw [packed_map_append, ← h.sizes]
    rfl
  count := by
    rw [List.length_append, ← h.count]
    rfl

/-- **Every sequence of calls** keeps the invariant. -/
theorem Represents.appendInstructions {bank : CapStoneInstructionBank} {before : List AppendCall}
    (h : Represents bank before) (calls : List AppendCall) :
    Represents (bank.appendInstructions calls) (before ++ calls) := by
  induction calls generalizing bank before with
  | nil =>
    rw [List.append_nil]
    exact h
  | cons c calls ih =>
    have hrest := ih (h.append c)
    rw [List.append_assoc] at hrest
    exact hrest

theorem represents_appendInstructions (calls : List AppendCall) :
    Represents (CapStoneInstructionBank.init.appendInstructions calls) calls :=
  represents_init.appendInstructions calls

/-! ## Reading the buffers back -/

namespace Represents

variable {bank : CapStoneInstructionBank} {calls : List AppendCall} (h : Represents bank calls) (i : Nat)
include h

theorem getInstructionSize : bank.getInstructionSize i = calls[i]?.map fun c => c.insn.size := by
  have hlt : ∀ c : AppendCall, c.insn.size.toNat < 256 ^ 2 := fun c => c.insn.size.toNat_lt
  rw [CapStoneInstructionBank.getInstructionSize, h.sizes, wordAt_packed (by decide) hlt, Option.map_map]
  exact congrArg (fun f => calls[i]?.map f) (funext fun c => UInt16.ofNat_toNat)

theorem getInstructionStartAddress :
    bank.getInstructionStartAddress i = calls[i]?.map AppendCall.codeStartAddr := by
  have hlt : ∀ c : AppendCall, c.codeStartAddr.toNat < 256 ^ 8 := fun c => c.codeStartAddr.toNat_lt
  rw [CapStoneInstructionBank.getInstructionStartAddress, h.startAddresses, wordAt_packed (by decide) hlt,
    Option.map_map]
  exact congrArg (fun f => calls[i]?.map f) (funext fun c => UInt64.ofNat_toNat)

/-- Outside the calls nothing is read. -/
theorem instructionAtIndex_none (hi : calls[i]? = none) : bank.instructionAtIndex i = none := by
  have hsize : bank.getMnemonicSize i = none := by
    rw [CapStoneInstructionBank.getMnemonicSize, getNSUIntegerValueFromData, h.mnemonicSizes,
      wordAt_packed_mod (by decide), List.getElem?_map, hi]
    rfl
  unfold CapStoneInstructionBank.instructionAtIndex
  cases bank.getOffsetInStringBank i with
  | none => rfl
  | some offset =>
    rw [hsize]
    rfl

/-- An instruction that was appended is read from its own place in every buffer. The three `NSUInteger`
columns have what is left of a number in 8 bytes. -/
theorem instructionAtIndex_some {c : AppendCall} (hi : calls[i]? = some c) :
    ∃ offset,
      sliceAt bank.instructionStringBank offset (strlen c.insn.mnemonic) = some (cText c.insn.mnemonic) ∧
      sliceAt bank.instructionStringBank (offset + strlen c.insn.mnemonic) (strlen c.insn.opStr) =
        some (cText c.insn.opStr) ∧
      bank.instructionAtIndex i = some
        ⟨initWithBytes bank.instructionStringBank (offset % 256 ^ 8) (strlen c.insn.mnemonic % 256 ^ 8),
          initWithBytes bank.instructionStringBank
            (offset % 256 ^ 8 + strlen c.insn.mnemonic % 256 ^ 8) (strlen c.insn.opStr % 256 ^ 8),
          c.codeStartAddr, c.insn.size⟩ := by
  have htext : (calls.map AppendCall.text)[i]? = some (cText c.insn.mnemonic ++ cText c.insn.opStr) := by
    rw [List.getElem?_map, hi]
    rfl
  obtain ⟨offset, hoffset, hmnemonic, hopStr⟩ := pool_sliceAt htext
  rw [← h.strings] at hmnemonic hopStr
  refine ⟨offset, hmnemonic, hopStr, ?_⟩
  unfold CapStoneInstructionBank.instructionAtIndex CapStoneInstructionBank.getOffsetInStringBank
    CapStoneInstructionBank.getMnemonicSize CapStoneInstructionBank.getOperandSize
    getNSUIntegerValueFromData
  rw [h.offsets, h.mnemonicSizes, h.opStrSizes, h.getInstructionSize, h.getInstructionStartAddress]
  simp only [wordAt_packed_mod (show 0 < 8 by decide), hoffset, List.getElem?_map, hi, Option.map_some]
  rfl

/-- **The numbers of an instruction** are read back whatever its texts are. -/
theorem instructionAtIndex_numbers {c : AppendCall} (hi : calls[i]? = some c) :
    ∃ m o, bank.instructionAtIndex i = some ⟨m, o, c.codeStartAddr, c.insn.size⟩ := by
  obtain ⟨offset, -, -, hread⟩ := h.instructionAtIndex_some i hi
  exact ⟨_, _, hread⟩

/-- **The texts of an instruction** are read back from a string bank whose length is an `NSUInteger`. -/
theorem instructionAtIndex_texts {c : AppendCall} (hi : calls[i]? = some c)
    (hlength : bank.instructionStringBank.length < 2 ^ 64) :
    bank.instructionAtIndex i = some ⟨Data.utf8String ⟨0, cText c.insn.mnemonic⟩,
      Data.utf8String ⟨0, cText c.insn.opStr⟩, c.codeStartAddr, c.insn.size⟩ := by
  obtain ⟨offset, hmnemonic, hopStr, hread⟩ := h.instructionAtIndex_some i hi
  -- the operand ends inside the bank, so no number on the way is cut off
  have hend := (sliceAt_eq_some.mp hopStr).1
  rw [hread, Nat.mod_eq_of_lt (by omega), Nat.mod_eq_of_lt (by omega), Nat.mod_eq_of_lt (by omega),
    initWithBytes, initWithBytes, hmnemonic, hopStr]
  rfl

end Represents

/-! ## What was appended comes back -/

/-- `NUL`-free ASCII. -/
def PlainASCII (s : String) : Prop := ∀ c ∈ s.toList, 0 < c.toNat ∧ c.toNat < 128

instance (s : String) : Decidable (PlainASCII s) :=
  decidable_of_iff (s.toList.all fun c => 0 < c.toNat ∧ c.toNat < 128) (by simp [PlainASCII])

/-- An instruction to append: its texts, and whatever stands behind their ends in the two arrays. -/
structure Appended where
  mnemonic : String
  operand : String
  size : UInt16
  startAddr : UInt64
  mnemonicRest : List UInt8
  operandRest : List UInt8
  mnemonic_plain : PlainASCII mnemonic
  operand_plain : PlainASCII operand

namespace Appended

/-- The call that appends it. -/
def call (a : Appended) : AppendCall where
  insn :=
    { mnemonic := utf8 a.mnemonic ++ 0 :: a.mnemonicRest
      opStr := utf8 a.operand ++ 0 :: a.operandRest
      size := a.size
      mnemonic_ends := List.mem_append_right _ List.mem_cons_self
      opStr_ends := List.mem_append_right _ List.mem_cons_self }
  codeStartAddr := a.startAddr

/-- What has to come back. -/
def instruction (a : Appended) : CapStoneInstruction :=
  ⟨some a.mnemonic, some a.operand, a.startAddr, a.size⟩

end Appended

theorem cText_utf8 {s : String} (h : PlainASCII s) (rest : List UInt8) :
    cText (utf8 s ++ 0 :: rest) = utf8 s := by
  refine cText_terminated (zero_not_mem_utf8 fun hmem => ?_) rest
  exact absurd (h _ hmem).1 (by decide)

/-- The number of bytes the appended texts take. -/
def textLength (as : List Appended) : Nat :=
  (as.map fun a => (utf8 a.mnemonic).length + (utf8 a.operand).length).sum

theorem Appended.call_text (a : Appended) : a.call.text = utf8 a.mnemonic ++ utf8 a.operand := by
  unfold AppendCall.text Appended.call
  rw [cText_utf8 a.mnemonic_plain, cText_utf8 a.operand_plain]

theorem length_stringBank (as : List Appended) :
    (CapStoneInstructionBank.init.appendInstructions (as.map Appended.call)).instructionStringBank.length =
      textLength as := by
  rw [(represents_appendInstructions _).strings, List.length_flatten, List.map_map, List.map_map,
    textLength]
  refine congrArg List.sum (List.map_congr_left fun a _ => ?_)
  rw [Function.comp_apply, Function.comp_apply, a.call_text, List.length_append]

/-- **The bank returns what was appended**, in order and nothing else, whenever the texts fit into an
`NSMutableData`, whose length is an `NSUInteger`. -/
theorem instructionBank_returns (as : List Appended) (hlength : textLength as < 2 ^ 64) :
    (CapStoneInstructionBank.init.appendInstructions (as.map Appended.call)).numberOfInstructions =
      as.length ∧
    ∀ i, (CapStoneInstructionBank.init.appendInstructions (as.map Appended.call)).instructionAtIndex i =
      as[i]?.map Appended.instruction := by
  have h := represents_appendInstructions (as.map Appended.call)
  refine ⟨by rw [h.count, List.length_map], fun i => ?_⟩
  cases ha : as[i]? with
  | none =>
    refine h.instructionAtIndex_none i ?_
    rw [List.getElem?_map, ha]
    rfl
  | some a =>
    have hcall : (as.map Appended.call)[i]? = some a.call := by
      rw [List.getElem?_map, ha]
      rfl
    have hmnemonic : Data.utf8String ⟨0, cText a.call.insn.mnemonic⟩ = some a.mnemonic :=
      utf8String_eq_some.mpr (cText_utf8 a.mnemonic_plain _)
    have hopStr : Data.utf8String ⟨0, cText a.call.insn.opStr⟩ = some a.operand :=
      utf8String_eq_some.mpr (cText_utf8 a.operand_plain _)
    rw [h.instructionAtIndex_texts i hcall (by rw [length_stringBank]; exact hlength), hmnemonic, hopStr]
    rfl

/-- Two ARM64 instructions; the second one has no operand, and its array still has the end of the first
one's. -/
def movRet : List Appended :=
  [⟨"mov", "x0, x1", 4, 0x100003f00, [], [], by decide, by decide⟩,
   ⟨"ret", "", 4, 0x100003f04, [], [0x30, 0x2c, 0x20, 0x78, 0x31, 0x00], by decide, by decide⟩]

theorem instructionBank_returns_movRet :
    (CapStoneInstructionBank.init.appendInstructions (movRet.map Appended.call)).numberOfInstructions = 2 ∧
    (CapStoneInstructionBank.init.appendInstructions (movRet.map Appended.call)).instructionAtIndex 0 =
      some ⟨some "mov", some "x0, x1", 0x100003f00, 4⟩ ∧
    (CapStoneInstructionBank.init.appendInstructions (movRet.map Appended.call)).instructionAtIndex 1 =
      some ⟨some "ret", some "", 0x100003f04, 4⟩ := by
  obtain ⟨hcount, hread⟩ := instructionBank_returns movRet (by decide)
  exact ⟨hcount, hread 0, hread 1⟩

end Mocha
