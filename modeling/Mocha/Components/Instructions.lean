import Mocha.Components.InstructionBank
import Mocha.Lib.Paging
import Mocha.Macho.Component

/-!
# Code sections (`InstructionComponent.swift`, `CapStoneHelper.instructionsFrom`)

`CapStoneHelper.instructionsFrom` runs the disassembler over the bytes of a section and appends what it
returns to an instruction bank, each with the address it began at: the address the disassembler has moved
on to, less the size. `InstructionComponent` shows the bank in groups of 1024 and computes the file range
of an instruction when it is asked for one, by moving its address from the section's virtual address to
the section's offset in the file.

The disassembler is the parameter `CapStone`. All that is assumed of it is what `cs_disasm_iter` documents
and does: a call that succeeds takes the bytes of one instruction, at least one, from the front of the
code and moves the address by as many (`CapStone.consumes`).

**`instructions_paged`**: in reading order the groups show every instruction once, and their ranges are
contiguous from the start of the section.
-/

namespace Mocha

open Lib Data

/-! ## The disassembler -/

/-- `cs_arch`, as far as it is used. -/
inductive CsArch where
  | x86
  | arm
  | arm64
  deriving DecidableEq, Repr

/-- `cs_mode`, as far as it is used; `CS_MODE_ARM` is the little-endian default. -/
inductive CsMode where
  | arm
  | mode32
  | mode64
  deriving DecidableEq, Repr

/-- The options that are set with `cs_option`. -/
inductive CsOption where
  | mode (mode : CsMode)
  | detailOn
  | skipdataOn
  deriving DecidableEq, Repr

/-- What a successful `cs_disasm_iter` writes through its pointers. -/
structure CsIteration where
  insn : CsInsn
  code : List UInt8
  address : UInt64

/-- The disassembler. A handle holds its state, which every call may change. -/
structure CapStone where
  Handle : Type
  /-- `cs_open`; an error is a `cs_err` -/
  csOpen : CsArch → CsMode → Except Nat Handle
  csOption : Handle → CsOption → Handle
  csDisasmIter : Handle → List UInt8 → UInt64 → Handle × Option CsIteration
  csErrno : Handle → Nat
  /-- a successful call takes an instruction from the front of the code -/
  consumes {handle next : Handle} {code : List UInt8} {address : UInt64} {r : CsIteration} :
    csDisasmIter handle code address = (next, some r) →
      0 < r.insn.size.toNat ∧ r.insn.size.toNat ≤ code.length ∧
      r.code = code.drop r.insn.size.toNat ∧ r.address = address + r.insn.size.toUInt64

/-- The first `switch` over the architecture. -/
def CapStoneArchType.target : CapStoneArchType → CsArch × CsMode
  | .I386 => (.x86, .mode32)
  | .X8664 => (.x86, .mode64)
  | .ARM => (.arm, .arm)
  | .ARM64 => (.arm64, .arm)

/-- The calls of `cs_option`: the second `switch` and the two after it. -/
def CapStoneArchType.options : CapStoneArchType → List CsOption
  | .I386 | .X8664 => [.detailOn, .skipdataOn]
  | .ARM | .ARM64 => [.mode .arm, .detailOn, .skipdataOn]

namespace CapStone

variable (cs : CapStone)

/-- The `while` loop of `instructionsFrom`. -/
def iterate (handle : cs.Handle) (code : List UInt8) (codeAddress : UInt64)
    (instructionBank : CapStoneInstructionBank) : cs.Handle × CapStoneInstructionBank :=
  match _h : cs.csDisasmIter handle code codeAddress with
  | (handle, none) => (handle, instructionBank)
  | (handle, some r) =>
    iterate handle r.code r.address
      (instructionBank.appendInstruction r.insn (r.address - r.insn.size.toUInt64))
termination_by code.length
decreasing_by
  obtain ⟨hpos, hle, hcode, -⟩ := cs.consumes _h
  rw [hcode, List.length_drop]
  omega

/-- `CapStoneHelper.instructionsFrom`. The second error has the code of `cs_open`, which is
`CS_ERR_OK` by then. -/
def instructionsFrom (data : Data) (arch : CapStoneArchType) (codeStartAddress : UInt64) :
    CapStoneInstructionBank :=
  match cs.csOpen arch.target.1 arch.target.2 with
  | .error cserr => { CapStoneInstructionBank.init with error := some ⟨"Capstore", cserr⟩ }
  | .ok handle =>
    let r := cs.iterate (arch.options.foldl cs.csOption handle) data.bytes codeStartAddress .init
    if cs.csErrno r.1 ≠ 0 then { r.2 with error := some ⟨"Capstone", 0⟩ } else r.2

end CapStone

/-! ## The component -/

/-- `InstructionTranslation`. -/
structure InstructionTranslation where
  capstoneInstruction : CapStoneInstruction
  bytesCount : Nat
  dataRangeInMacho : Span
  deriving DecidableEq, Repr

/-- `InstructionComponent`, with the bank that `runInitializing` fills in. -/
structure InstructionComponent where
  data : Data
  capStoneArchType : CapStoneArchType
  virtualAddress : UInt64
  instructionBank : CapStoneInstructionBank

/-- `a - b` on `UInt64`, which traps when it would be negative. -/
def minus (a b : UInt64) : Run UInt64 := if b.toNat ≤ a.toNat then .ok (a - b) else .error .overflow

namespace InstructionComponent

/-- `runInitializing()`. -/
def runInitializing (cs : CapStone) (data : Data) (capStoneArchType : CapStoneArchType)
    (virtualAddress : UInt64) : InstructionComponent :=
  ⟨data, capStoneArchType, virtualAddress, cs.instructionsFrom data capStoneArchType virtualAddress⟩

variable (c : InstructionComponent)

/-- `dataSize`. -/
def dataSize : Nat := c.data.count

/-- `offsetInMacho`. -/
def offsetInMacho : Nat := c.data.startIndex

/-- `numberOfTranslations(in:)`. -/
def numberOfTranslations (sectionIndex : Nat) : Nat :=
  let numberOfInstructions := c.instructionBank.numberOfInstructions
  if (sectionIndex + 1) * 1024 ≤ numberOfInstructions then 1024
  else numberOfInstructions % 1024

/-- `numberOfTranslationGroups()`. -/
def numberOfTranslationGroups : Nat :=
  let numberOfInstructions := c.instructionBank.numberOfInstructions
  let numberOfGroups := numberOfInstructions / 1024
  if numberOfInstructions % 1024 ≠ 0 then numberOfGroups + 1 else numberOfGroups

/-- The instruction at an index of the bank, with its range in the file. -/
def translationAt (index : Nat) : Run InstructionTranslation := do
  let instruction ← (c.instructionBank.instructionAtIndex index).elim (.error .outOfBounds) .ok
  let startOffsetInMacho ←
    plus (← minus instruction.startAddr c.virtualAddress) (UInt64.ofNat c.offsetInMacho)
  let endOffset ← plus startOffsetInMacho instruction.size.toUInt64
  return ⟨instruction, instruction.size.toNat, ⟨startOffsetInMacho.toNat, endOffset.toNat⟩⟩

/-- `translation(at:)`. -/
def translation (indexPath : Nat × Nat) : Run InstructionTranslation :=
  c.translationAt (indexPath.1 * 1024 + indexPath.2)

/-- The index paths the view goes through, in order. -/
def indexPaths : List (Nat × Nat) := places c.numberOfTranslationGroups c.numberOfTranslations

/-- The translations the view shows. -/
def translations : Run (List InstructionTranslation) := c.indexPaths.mapM c.translation

end InstructionComponent

/-! ## What the disassembler produces -/

section Produced

variable {cs : CapStone}

/-- The instructions of successive `cs_disasm_iter` calls, up to the first that fails. -/
inductive CapStone.Iterates (cs : CapStone) :
    cs.Handle → List UInt8 → UInt64 → List CsInsn → cs.Handle → Prop
  | stop {handle last : cs.Handle} {code : List UInt8} {address : UInt64}
      (h : cs.csDisasmIter handle code address = (last, none)) : Iterates cs handle code address [] last
  | step {handle next last : cs.Handle} {code : List UInt8} {address : UInt64} {r : CsIteration}
      {insns : List CsInsn} (h : cs.csDisasmIter handle code address = (next, some r))
      (hrest : Iterates cs next r.code r.address insns last) :
      Iterates cs handle code address (r.insn :: insns) last

/-- The instructions a section gives: none if the disassembler does not open. -/
def CapStone.Produces (cs : CapStone) (data : Data) (arch : CapStoneArchType) (codeStartAddress : UInt64)
    (insns : List CsInsn) : Prop :=
  match cs.csOpen arch.target.1 arch.target.2 with
  | .error _ => insns = []
  | .ok handle =>
    ∃ last, cs.Iterates (arch.options.foldl cs.csOption handle) data.bytes codeStartAddress insns last

/-- The sizes of instructions. -/
def sizes (insns : List CsInsn) : List Nat := insns.map fun insn => insn.size.toNat

@[simp] theorem sizes_cons (insn : CsInsn) (insns : List CsInsn) :
    sizes (insn :: insns) = insn.size.toNat :: sizes insns := rfl

/-- The calls of `appendInstruction` for instructions one behind the other from `address` on. -/
def callsFrom : UInt64 → List CsInsn → List AppendCall
  | _, [] => []
  | address, insn :: insns => ⟨insn, address⟩ :: callsFrom (address + insn.size.toUInt64) insns

theorem length_callsFrom : ∀ (address : UInt64) (insns : List CsInsn),
    (callsFrom address insns).length = insns.length
  | _, [] => rfl
  | address, insn :: insns => by rw [callsFrom, List.length_cons, length_callsFrom, List.length_cons]

/-- The calls of `cs_disasm_iter` come to an end. -/
theorem exists_iterates (n : Nat) : ∀ (handle : cs.Handle) (code : List UInt8) (address : UInt64),
    code.length = n → ∃ insns last, cs.Iterates handle code address insns last := by
  induction n using Nat.strongRecOn with
  | ind n ih =>
    intro handle code address hn
    cases hr : cs.csDisasmIter handle code address with
    | mk next r =>
      cases r with
      | none => exact ⟨[], next, .stop hr⟩
      | some r =>
        obtain ⟨hpos, hle, hcode, -⟩ := cs.consumes hr
        have hlt : r.code.length < n := by
          rw [hcode, List.length_drop]
          omega
        obtain ⟨insns, last, hrest⟩ := ih r.code.length hlt next r.code r.address rfl
        exact ⟨r.insn :: insns, last, .step hr hrest⟩

theorem CapStone.iterate_stop {handle last : cs.Handle} {code : List UInt8} {address : UInt64}
    (h : cs.csDisasmIter handle code address = (last, none)) (bank : CapStoneInstructionBank) :
    cs.iterate handle code address bank = (last, bank) := by
  rw [CapStone.iterate]
  split
  · rename_i hstop
    cases h.symm.trans hstop
    rfl
  · rename_i hstep
    cases h.symm.trans hstep

theorem CapStone.iterate_step {handle next : cs.Handle} {code : List UInt8} {address : UInt64}
    {r : CsIteration} (h : cs.csDisasmIter handle code address = (next, some r))
    (bank : CapStoneInstructionBank) :
    cs.iterate handle code address bank = cs.iterate next r.code r.address
      (bank.appendInstruction r.insn (r.address - r.insn.size.toUInt64)) := by
  rw [CapStone.iterate]
  split
  · rename_i hstop
    cases h.symm.trans hstop
  · rename_i hstep
    cases h.symm.trans hstep
    rfl

/-- **The loop** appends what the disassembler produces, each at the address it began at. -/
theorem CapStone.Iterates.iterate_eq {handle last : cs.Handle} {code : List UInt8} {address : UInt64}
    {insns : List CsInsn} (h : cs.Iterates handle code address insns last)
    (bank : CapStoneInstructionBank) :
    cs.iterate handle code address bank = (last, bank.appendInstructions (callsFrom address insns)) := by
  induction h generalizing bank with
  | stop h => exact CapStone.iterate_stop h bank
  | step h _ ih =>
    -- the address has moved on by the size when the instruction is appended
    obtain ⟨-, -, -, haddress⟩ := cs.consumes h
    rw [CapStone.iterate_step h, ih, haddress, UInt64.add_sub_cancel]
    rfl

theorem CapStone.Iterates.sum_sizes_le {handle last : cs.Handle} {code : List UInt8} {address : UInt64}
    {insns : List CsInsn} (h : cs.Iterates handle code address insns last) :
    (sizes insns).sum ≤ code.length := by
  induction h with
  | stop h => exact Nat.zero_le _
  | step h _ ih =>
    obtain ⟨-, hle, hcode, -⟩ := cs.consumes h
    rw [hcode, List.length_drop] at ih
    rw [sizes_cons, List.sum_cons]
    omega

theorem exists_produces (cs : CapStone) (data : Data) (arch : CapStoneArchType) (address : UInt64) :
    ∃ insns, cs.Produces data arch address insns := by
  unfold CapStone.Produces
  split
  · exact ⟨[], rfl⟩
  · exact exists_iterates _ _ _ _ rfl

/-- **The bank of a section** holds the instructions it gives, which lie inside the section. -/
theorem CapStone.Produces.represents {data : Data} {arch : CapStoneArchType} {address : UInt64}
    {insns : List CsInsn} (h : cs.Produces data arch address insns) :
    Represents (cs.instructionsFrom data arch address) (callsFrom address insns) ∧
    (sizes insns).sum ≤ data.count := by
  unfold CapStone.Produces at h
  unfold CapStone.instructionsFrom
  cases hopen : cs.csOpen arch.target.1 arch.target.2 with
  | error cserr =>
    simp only [hopen] at h ⊢
    subst h
    exact ⟨represents_init.withError _, Nat.zero_le _⟩
  | ok handle =>
    simp only [hopen] at h ⊢
    obtain ⟨last, hiterates⟩ := h
    refine ⟨?_, hiterates.sum_sizes_le⟩
    have hbank := represents_appendInstructions (callsFrom address insns)
    rw [hiterates.iterate_eq]
    split
    · exact hbank.withError _
    · exact hbank

end Produced

/-! ## The ranges of the instructions -/

/-- The virtual addresses of an appended instruction. -/
def AppendCall.addresses (c : AppendCall) : Span := Span.of c.codeStartAddr.toNat c.insn.size.toNat

/-- The addresses lie one behind the other. -/
theorem callsFrom_addresses : ∀ {address : UInt64} {insns : List CsInsn},
    address.toNat + (sizes insns).sum < 2 ^ 64 →
      (callsFrom address insns).map AppendCall.addresses = layOut address.toNat (sizes insns)
  | _, [], _ => rfl
  | address, insn :: insns, hsum => by
    rw [sizes_cons, List.sum_cons] at hsum
    have hnext : (address + insn.size.toUInt64).toNat = address.toNat + insn.size.toNat := by
      rw [UInt64.toNat_add, UInt16.toNat_toUInt64, Nat.mod_eq_of_lt (by omega)]
    have hlt : (address + insn.size.toUInt64).toNat + (sizes insns).sum < 2 ^ 64 := by omega
    have hrest := callsFrom_addresses hlt
    rw [callsFrom, List.map_cons, hrest, hnext, sizes_cons, layOut]
    rfl

/-- The bytes of the file at the addresses `s` of a section. -/
def InstructionComponent.fileRange (c : InstructionComponent) (s : Span) : Span :=
  Span.of (s.lower - c.virtualAddress.toNat + c.offsetInMacho) s.width

theorem plus_ok {a b : UInt64} (h : a.toNat + b.toNat < 2 ^ 64) :
    ∃ r, plus a b = .ok r ∧ r.toNat = a.toNat + b.toNat := by
  unfold plus
  rw [if_pos h]
  exact ⟨a + b, rfl, by rw [UInt64.toNat_add, Nat.mod_eq_of_lt h]⟩

theorem minus_ok {a b : UInt64} (h : b.toNat ≤ a.toNat) :
    ∃ r, minus a b = .ok r ∧ r.toNat = a.toNat - b.toNat := by
  unfold minus
  rw [if_pos h]
  exact ⟨a - b, rfl, UInt64.toNat_sub_of_le a b h⟩

section Ranges

variable {c : InstructionComponent} {calls : List AppendCall}

/-- **The range of one instruction**: its addresses, moved to the file. -/
theorem translationAt_ok (hbank : Represents c.instructionBank calls) {i : Nat} {call : AppendCall}
    (hi : calls[i]? = some call) (hlower : c.virtualAddress.toNat ≤ call.addresses.lower)
    (hupper : call.addresses.upper - c.virtualAddress.toNat + c.offsetInMacho < 2 ^ 64) :
    ∃ t, c.translationAt i = .ok t ∧ t.dataRangeInMacho = c.fileRange call.addresses := by
  obtain ⟨m, o, hread⟩ := hbank.instructionAtIndex_numbers i hi
  unfold AppendCall.addresses at hlower hupper
  rw [Span.of_lower] at hlower
  rw [Span.of_upper] at hupper
  have hoffset : (UInt64.ofNat c.offsetInMacho).toNat = c.offsetInMacho :=
    UInt64.toNat_ofNat_of_lt' (by show c.offsetInMacho < 2 ^ 64; omega)
  obtain ⟨a, ha, hav⟩ := minus_ok hlower
  obtain ⟨b, hb, hbv⟩ := plus_ok (a := a) (b := UInt64.ofNat c.offsetInMacho) (by omega)
  have hsize : call.insn.size.toUInt64.toNat = call.insn.size.toNat := UInt16.toNat_toUInt64 _
  obtain ⟨e, he, hev⟩ := plus_ok (a := b) (b := call.insn.size.toUInt64) (by omega)
  unfold InstructionComponent.translationAt
  rw [hread, Option.elim_some]
  simp only [ok_bind, ha, hb, he]
  refine ⟨_, rfl, ?_⟩
  rw [InstructionComponent.fileRange, AppendCall.addresses, Span.of_lower, Span.of_width, ← hav, Span.of]
  simp only [hev, hbv, hoffset, hsize]

/-- The ranges of all instructions, asked for by index. -/
theorem translationAt_all (hbank : Represents c.instructionBank calls)
    (hbounds : ∀ call ∈ calls, c.virtualAddress.toNat ≤ call.addresses.lower ∧
      call.addresses.upper - c.virtualAddress.toNat + c.offsetInMacho < 2 ^ 64) :
    ∃ ts, (List.range calls.length).mapM c.translationAt = .ok ts ∧
      ts.map InstructionTranslation.dataRangeInMacho =
        (calls.map AppendCall.addresses).map c.fileRange := by
  rw [List.map_map]
  refine mapM_range_total fun i call hcall => ?_
  obtain ⟨hlower, hupper⟩ := hbounds call (List.mem_of_getElem? hcall)
  exact translationAt_ok hbank hcall hlower hupper

end Ranges

/-! ## The pages -/

section Pages

variable {c : InstructionComponent}

theorem mem_indexPaths {g j : Nat} :
    (g, j) ∈ c.indexPaths ↔ g < c.numberOfTranslationGroups ∧ j < c.numberOfTranslations g := mem_places

/-- The index paths are the indices of the bank, in order. -/
theorem indexPaths_items : c.indexPaths.map (fun p => 1024 * p.1 + p.2) =
    List.range c.instructionBank.numberOfInstructions := by
  have hitem : (fun p : Nat × Nat => 1024 * p.1 + p.2) = item 1024 := by
    funext p
    rw [item, Nat.mul_comm]
  rw [hitem]
  exact places_items (by decide) _

theorem translations_eq_mapM :
    c.translations = (List.range c.instructionBank.numberOfInstructions).mapM c.translationAt := by
  rw [← indexPaths_items, List.mapM_map]
  refine congrArg (fun f => c.indexPaths.mapM f) (funext fun p => ?_)
  rw [InstructionComponent.translation, Function.comp_apply, Nat.mul_comm]

end Pages

/-- **Every instruction is shown once, at its own bytes.** The instructions of a section are as many as the
index paths of the view, which number them in order; their ranges are as wide as they are and contiguous
from the offset of the section on, and end inside it. -/
theorem instructions_paged (cs : CapStone) (data : Data) (arch : CapStoneArchType) (virtualAddress : UInt64)
    (haddress : virtualAddress.toNat + data.count < 2 ^ 64) (hdata : data.endIndex < 2 ^ 63)
    {c : InstructionComponent} (hc : c = .runInitializing cs data arch virtualAddress) :
    (∃ insns, cs.Produces data arch virtualAddress insns) ∧
    ∀ insns, cs.Produces data arch virtualAddress insns →
      c.instructionBank.numberOfInstructions = insns.length ∧
      (∀ g j, (g, j) ∈ c.indexPaths ↔ g < c.numberOfTranslationGroups ∧ j < c.numberOfTranslations g) ∧
      c.indexPaths.map (fun p => 1024 * p.1 + p.2) = List.range insns.length ∧
      ∃ ts e, c.translations = .ok ts ∧
        Tiles c.offsetInMacho e (ts.map InstructionTranslation.dataRangeInMacho) ∧
        (ts.map InstructionTranslation.dataRangeInMacho).map Span.width = sizes insns ∧
        e ≤ c.offsetInMacho + c.dataSize := by
  refine ⟨exists_produces cs data arch virtualAddress, fun insns hproduces => ?_⟩
  subst hc
  obtain ⟨hbank, hsum⟩ := hproduces.represents
  have hcount : (cs.instructionsFrom data arch virtualAddress).numberOfInstructions = insns.length :=
    hbank.count.trans (length_callsFrom virtualAddress insns)
  have haddresses := callsFrom_addresses (show virtualAddress.toNat + (sizes insns).sum < 2 ^ 64 by omega)
  have hbounds : ∀ call ∈ callsFrom virtualAddress insns, virtualAddress.toNat ≤ call.addresses.lower ∧
      call.addresses.upper - virtualAddress.toNat + data.startIndex < 2 ^ 64 := by
    intro call hcall
    have hmem := List.mem_map_of_mem (f := AppendCall.addresses) hcall
    rw [haddresses] at hmem
    obtain ⟨hlower, hupper⟩ := mem_layOut_bounds hmem
    unfold Data.endIndex at hdata
    exact ⟨hlower, by omega⟩
  obtain ⟨ts, hts, hranges⟩ := translationAt_all
    (c := .runInitializing cs data arch virtualAddress) hbank hbounds
  -- moved to the file, the addresses are laid out from the offset of the section on
  have hlayout : ts.map InstructionTranslation.dataRangeInMacho = layOut data.startIndex (sizes insns) := by
    have hmoved := layOut_moved virtualAddress.toNat data.startIndex 0 (sizes insns)
    rw [Nat.add_zero, Nat.zero_add, ← haddresses] at hmoved
    exact hranges.trans hmoved
  refine ⟨hcount, fun g j => mem_indexPaths, ?_, ts, data.startIndex + (sizes insns).sum, ?_, ?_, ?_, ?_⟩
  · rw [indexPaths_items, ← hcount]
    rfl
  · rw [translations_eq_mapM, ← hts, ← hbank.count]
    rfl
  · rw [hlayout]
    exact layOut_tiles _ _
  · rw [hlayout, layOut_map_width]
  · exact Nat.add_le_add_left hsum _

/-! ### A section of two instructions -/

/-- `nop` and `ret` of ARM64, which have no operand. -/
def armInsn (mnemonic : List UInt8) : CsInsn where
  mnemonic := mnemonic ++ [0]
  opStr := [0]
  size := 4
  mnemonic_ends := List.mem_append_right _ List.mem_cons_self
  opStr_ends := List.mem_cons_self

/-- The disassembler on these two. It has no other state, and it stops at anything else. -/
def armIter (code : List UInt8) (address : UInt64) : Option CsIteration :=
  match code with
  | 0x1f :: 0x20 :: 0x03 :: 0xd5 :: code => some ⟨armInsn [0x6e, 0x6f, 0x70], code, address + 4⟩
  | 0xc0 :: 0x03 :: 0x5f :: 0xd6 :: code => some ⟨armInsn [0x72, 0x65, 0x74], code, address + 4⟩
  | _ => none

theorem armIter_consumes {code : List UInt8} {address : UInt64} {r : CsIteration}
    (h : armIter code address = some r) :
    0 < r.insn.size.toNat ∧ r.insn.size.toNat ≤ code.length ∧ r.code = code.drop r.insn.size.toNat ∧
      r.address = address + r.insn.size.toUInt64 := by
  unfold armIter at h
  split at h
  · cases h
    exact ⟨show 0 < (4 : UInt16).toNat by decide, Nat.le_add_left 4 _, rfl, rfl⟩
  · cases h
    exact ⟨show 0 < (4 : UInt16).toNat by decide, Nat.le_add_left 4 _, rfl, rfl⟩
  · cases h

def armCapStone : CapStone where
  Handle := Unit
  csOpen _ _ := .ok ()
  csOption handle _ := handle
  csDisasmIter handle code address := (handle, armIter code address)
  csErrno _ := 0
  consumes h := armIter_consumes (congrArg Prod.snd h)

/-- Both instructions, and a byte that is none, at 0x40 of the file. -/
def nopRetData : Data := ⟨0x40, [0x1f, 0x20, 0x03, 0xd5, 0xc0, 0x03, 0x5f, 0xd6, 0x00]⟩

theorem nopRet_produces :
    armCapStone.Produces nopRetData .ARM64 0x100000040
      [armInsn [0x6e, 0x6f, 0x70], armInsn [0x72, 0x65, 0x74]] :=
  have hret : armCapStone.Iterates () [0xc0, 0x03, 0x5f, 0xd6, 0x00] 0x100000044
      [armInsn [0x72, 0x65, 0x74]] () :=
    .step (r := ⟨armInsn [0x72, 0x65, 0x74], [0x00], 0x100000048⟩) rfl (.stop rfl)
  ⟨(), .step (r := ⟨armInsn [0x6e, 0x6f, 0x70], [0xc0, 0x03, 0x5f, 0xd6, 0x00], 0x100000044⟩) rfl hret⟩

theorem instructions_paged_nopRet :
    (InstructionComponent.runInitializing armCapStone nopRetData .ARM64 0x100000040).indexPaths.map
      (fun p => 1024 * p.1 + p.2) = [0, 1] ∧
    ∃ ts e, (InstructionComponent.runInitializing armCapStone nopRetData .ARM64
        0x100000040).translations = .ok ts ∧
      Tiles 0x40 e (ts.map InstructionTranslation.dataRangeInMacho) ∧
      (ts.map InstructionTranslation.dataRangeInMacho).map Span.width = [4, 4] ∧ e ≤ 0x49 := by
  obtain ⟨-, hall⟩ := instructions_paged armCapStone nopRetData .ARM64 0x100000040
    (by decide) (by decide) rfl
  obtain ⟨-, -, hitems, hranges⟩ := hall _ nopRet_produces
  exact ⟨hitems, hranges⟩

end Mocha
