import Mocha.Components.Instructions

/-!
# The disassembler's loop (`cs_open`, `cs_option`, `cs_disasm_iter` in capstone's `cs.c`)

`CapStone` is all that `InstructionComponent` needs of the disassembler. Here it is filled in from the
source of `cs.c`: what a handle stores, which options it takes, and how `cs_disasm_iter` goes on behind
bytes that are no instruction. `Decoder` is the part that is different for every architecture; what is
assumed of it is that a decoded instruction is at least one byte and at most 24 bytes long, the size of
`cs_insn.bytes`, and lies inside the code.

`CapStoneHelper` turns on `CS_OPT_SKIPDATA`. From then on bytes that cannot be decoded are returned as the
instruction `.byte`, as many at a time as `skipdata_size` says. **`disassembly_covers`**: nothing of a code
section is lost that way. The rows tile the section from its first byte on, and what is left at its end is
shorter than that size; on x86, where it is one byte, nothing is left.
-/

namespace Mocha

open Lib

/-! ## A handle -/

/-- The functions an architecture registers with its handle: `disasm`, and what turns its result into
the texts of the instruction. They may keep state in the handle. -/
structure Decoder where
  Engine : Type
  /-- `cs_arch_init[arch]` -/
  archInit : CsArch → CsMode → Engine
  /-- `cs_arch_option[arch]`, for `CS_OPT_MODE` -/
  archOption : CsArch → CsMode → Engine → Engine
  disasm : CsArch → CsMode → Engine → List UInt8 → UInt64 → Engine × Option CsInsn
  fits {arch : CsArch} {mode : CsMode} {engine next : Engine} {code : List UInt8} {address : UInt64}
    {insn : CsInsn} : disasm arch mode engine code address = (next, some insn) →
      0 < insn.size.toNat ∧ insn.size.toNat ≤ 24 ∧ insn.size.toNat ≤ code.length

/-- `skipdata_size(handle)`; the mode is never Thumb. -/
def skipdataSize : CsArch → UInt8
  | .arm | .arm64 => 4
  | .x86 => 1

/-- The modes outside `cs_arch_disallowed_mode_mask[arch]`. `CS_MODE_ARM` is 0. -/
def allowedMode : CsArch → CsMode → Bool
  | _, .arm => true
  | .x86, _ => true
  | _, _ => false

/-- `struct cs_struct`. A size is set when data is to be skipped. -/
structure CsStruct (D : Decoder) where
  errnum : Nat
  arch : CsArch
  mode : CsMode
  detail : Bool
  skipdata : Bool
  skipdata_size : UInt8
  engine : D.Engine
  skips : skipdata = true → 0 < skipdata_size.toNat

theorem skipdataSize_pos (arch : CsArch) : 0 < (skipdataSize arch).toNat := by
  cases arch <;> decide

theorem skips_off {n : UInt8} (h : false = true) : 0 < n.toNat := absurd h Bool.false_ne_true

namespace Decoder

variable (D : Decoder)

/-- `cs_open`. `CS_ERR_MODE` is 5. -/
def csOpen (arch : CsArch) (mode : CsMode) : Except Nat (CsStruct D) :=
  if allowedMode arch mode then
    .ok ⟨0, arch, mode, false, false, 0, D.archInit arch mode, skips_off⟩
  else .error 5

/-- The size that is set by turning `CS_OPT_SKIPDATA` on: the one that is there, or the default. -/
def skipSize (handle : CsStruct D) : UInt8 :=
  if handle.skipdata_size = 0 then skipdataSize handle.arch else handle.skipdata_size

theorem skipSize_pos (handle : CsStruct D) : 0 < (D.skipSize handle).toNat := by
  unfold skipSize
  by_cases hzero : handle.skipdata_size = 0
  · rw [if_pos hzero]
    exact skipdataSize_pos handle.arch
  · rw [if_neg hzero]
    refine Nat.pos_of_ne_zero fun hn => hzero ?_
    rw [← UInt8.toNat_inj]
    exact hn

/-- `cs_option`. -/
def csOption (handle : CsStruct D) : CsOption → CsStruct D
  | .detailOn => { handle with detail := true }
  | .skipdataOn => { handle with
      skipdata := true
      skipdata_size := D.skipSize handle
      skips := fun _ => D.skipSize_pos handle }
  | .mode mode =>
    if allowedMode handle.arch mode then { handle with
      mode := mode
      engine := D.archOption handle.arch mode handle.engine }
    else handle

end Decoder

/-! ## Skipped data -/

/-- A hexadecimal digit. -/
def hexDigit (n : Nat) : UInt8 := if n < 10 then UInt8.ofNat (0x30 + n) else UInt8.ofNat (0x57 + n)

/-- `"0x%02x"`. -/
def byteText (b : UInt8) : List UInt8 := [0x30, 0x78, hexDigit (b.toNat / 16), hexDigit (b.toNat % 16)]

/-- The loop of `skipdata_opstr`, with `available` bytes left: a text that does not fit is cut off and the
last one. -/
def skipdataTexts (available : Nat) : List UInt8 → List UInt8
  | [] => []
  | b :: rest =>
    let text := [0x2c, 0x20] ++ byteText b
    if text.length > available - 1 then text.take (available - 1)
    else text ++ skipdataTexts (available - text.length) rest

/-- `skipdata_opstr`. -/
def skipdataOpstr : List UInt8 → List UInt8
  | [] => [0]
  | b :: rest => byteText b ++ skipdataTexts (160 - 4) rest ++ [0]

theorem skipdataOpstr_ends : ∀ bytes : List UInt8, 0 ∈ skipdataOpstr bytes
  | [] => List.mem_cons_self
  | _ :: _ => List.mem_append_right _ List.mem_cons_self

/-- `SKIPDATA_MNEM`, `".byte"`. -/
def skipdataMnemonic : List UInt8 := [0x2e, 0x62, 0x79, 0x74, 0x65, 0]

theorem skipdataMnemonic_ends : 0 ∈ skipdataMnemonic := by decide

/-- The instruction for bytes that are none. -/
def dataInsn (bytes : List UInt8) : CsInsn where
  mnemonic := skipdataMnemonic
  opStr := skipdataOpstr bytes
  size := UInt16.ofNat bytes.length
  mnemonic_ends := skipdataMnemonic_ends
  opStr_ends := skipdataOpstr_ends bytes

theorem dataInsn_size {code : List UInt8} {n : UInt8} (h : n.toNat ≤ code.length) :
    (dataInsn (code.take n.toNat)).size.toNat = n.toNat := by
  have hlt := n.toNat_lt
  unfold dataInsn
  rw [List.length_take, Nat.min_eq_left h]
  exact UInt16.toNat_ofNat_of_lt' (by show n.toNat < 2 ^ 16; omega)

namespace Decoder

variable (D : Decoder)

/-- `cs_disasm_iter`. -/
def csDisasmIter (handle : CsStruct D) (code : List UInt8) (address : UInt64) :
    CsStruct D × Option CsIteration :=
  match D.disasm handle.arch handle.mode handle.engine code address with
  | (engine, some insn) =>
    ({ handle with errnum := 0, engine := engine },
      some ⟨insn, code.drop insn.size.toNat, address + insn.size.toUInt64⟩)
  | (engine, none) =>
    if !handle.skipdata || handle.skipdata_size.toNat > code.length then
      ({ handle with errnum := 0, engine := engine }, none)
    else
      let insn := dataInsn (code.take handle.skipdata_size.toNat)
      ({ handle with errnum := 0, engine := engine },
        some ⟨insn, code.drop insn.size.toNat, address + insn.size.toUInt64⟩)

variable {D}

/-- A call of `cs_disasm_iter`: an instruction, skipped data, or the end. -/
theorem csDisasmIter_cases (handle : CsStruct D) (code : List UInt8) (address : UInt64) :
    ∃ engine,
      (∃ insn, D.disasm handle.arch handle.mode handle.engine code address = (engine, some insn) ∧
        D.csDisasmIter handle code address = ({ handle with errnum := 0, engine := engine },
          some ⟨insn, code.drop insn.size.toNat, address + insn.size.toUInt64⟩)) ∨
      (D.disasm handle.arch handle.mode handle.engine code address = (engine, none) ∧
        handle.skipdata = true ∧ handle.skipdata_size.toNat ≤ code.length ∧
        D.csDisasmIter handle code address = ({ handle with errnum := 0, engine := engine },
          some ⟨dataInsn (code.take handle.skipdata_size.toNat),
            code.drop (dataInsn (code.take handle.skipdata_size.toNat)).size.toNat,
            address + (dataInsn (code.take handle.skipdata_size.toNat)).size.toUInt64⟩)) ∨
      ((handle.skipdata = true → code.length < handle.skipdata_size.toNat) ∧
        D.csDisasmIter handle code address = ({ handle with errnum := 0, engine := engine }, none)) := by
  unfold csDisasmIter
  cases hr : D.disasm handle.arch handle.mode handle.engine code address with
  | mk engine o =>
    refine ⟨engine, ?_⟩
    cases o with
    | some insn => exact .inl ⟨insn, rfl, rfl⟩
    | none =>
      by_cases hstop : (!handle.skipdata || handle.skipdata_size.toNat > code.length) = true
      · refine .inr (.inr ⟨?_, by simp only [hstop, if_true]⟩)
        intro hskip
        simpa [hskip] using hstop
      · have hskip : handle.skipdata = true ∧ handle.skipdata_size.toNat ≤ code.length := by
          simpa using hstop
        exact .inr (.inl ⟨rfl, hskip.1, hskip.2, by simp only [hstop, if_false, Bool.false_eq_true]⟩)

theorem csDisasmIter_consumes {handle next : CsStruct D} {code : List UInt8} {address : UInt64}
    {r : CsIteration} (h : D.csDisasmIter handle code address = (next, some r)) :
    0 < r.insn.size.toNat ∧ r.insn.size.toNat ≤ code.length ∧ r.code = code.drop r.insn.size.toNat ∧
      r.address = address + r.insn.size.toUInt64 := by
  obtain ⟨engine, ⟨insn, hinsn, hiter⟩ | ⟨-, hskip, hle, hiter⟩ | ⟨-, hiter⟩⟩ :=
    csDisasmIter_cases handle code address
  · rw [hiter] at h
    cases h
    obtain ⟨hpos, -, hle⟩ := D.fits hinsn
    exact ⟨hpos, hle, rfl, rfl⟩
  · rw [hiter] at h
    cases h
    have hsize := dataInsn_size hle
    refine ⟨?_, ?_, rfl, rfl⟩
    · rw [hsize]
      exact handle.skips hskip
    · rwa [hsize]
  · rw [hiter] at h
    cases h

variable (D) in
/-- The disassembler. -/
def capStone : CapStone where
  Handle := CsStruct D
  csOpen := D.csOpen
  csOption := D.csOption
  csDisasmIter := D.csDisasmIter
  csErrno := CsStruct.errnum
  consumes := csDisasmIter_consumes

end Decoder

/-! ## What is listed -/

/-- The instructions of some code, one behind the other: what the decoder finds, or data where it finds
nothing, up to a rest too short to be skipped. -/
inductive Decoder.Lists (D : Decoder) (arch : CsArch) (mode : CsMode) : List UInt8 → List CsInsn → Prop
  | rest {code : List UInt8} (hshort : code.length < (skipdataSize arch).toNat) : Lists D arch mode code []
  | decoded {code : List UInt8} {insns : List CsInsn} {insn : CsInsn} {engine next : D.Engine}
      {address : UInt64} (hinsn : D.disasm arch mode engine code address = (next, some insn))
      (hrest : Lists D arch mode (code.drop insn.size.toNat) insns) : Lists D arch mode code (insn :: insns)
  | skipped {code : List UInt8} {insns : List CsInsn} {engine next : D.Engine} {address : UInt64}
      (hnone : D.disasm arch mode engine code address = (next, none))
      (hle : (skipdataSize arch).toNat ≤ code.length)
      (hrest : Lists D arch mode (code.drop (skipdataSize arch).toNat) insns) :
      Lists D arch mode code (dataInsn (code.take (skipdataSize arch).toNat) :: insns)

section Covered

variable {D : Decoder}

/-- The instructions of a listing are the code, but for the rest. -/
theorem Decoder.Lists.covers {arch : CsArch} {mode : CsMode} {code : List UInt8} {insns : List CsInsn}
    (h : D.Lists arch mode code insns) :
    (sizes insns).sum ≤ code.length ∧ code.length < (sizes insns).sum + (skipdataSize arch).toNat := by
  induction h with
  | rest hshort => exact ⟨Nat.zero_le _, by simpa [sizes] using hshort⟩
  | decoded hinsn _ ih =>
    obtain ⟨-, -, hle⟩ := D.fits hinsn
    rw [List.length_drop] at ih
    rw [sizes_cons, List.sum_cons]
    omega
  | skipped _ hle _ ih =>
    rw [List.length_drop] at ih
    rw [sizes_cons, List.sum_cons, dataInsn_size hle]
    omega

/-- A handle as `CapStoneHelper` leaves it before the loop. -/
structure CsStruct.Ready (arch : CsArch) (mode : CsMode) (handle : CsStruct D) : Prop where
  hasArch : handle.arch = arch
  hasMode : handle.mode = mode
  skipsData : handle.skipdata = true
  size : handle.skipdata_size = skipdataSize arch
  noError : handle.errnum = 0

/-- The calls of `cs_disasm_iter` with such a handle list the code. -/
theorem Iterates.lists {arch : CsArch} {mode : CsMode} {handle last : D.capStone.Handle}
    {code : List UInt8} {address : UInt64} {insns : List CsInsn}
    (h : D.capStone.Iterates handle code address insns last)
    (hready : CsStruct.Ready (D := D) arch mode handle) :
    D.Lists arch mode code insns ∧ CsStruct.Ready (D := D) arch mode last := by
  induction h with
  | @stop handle last code address hstop =>
    obtain ⟨harch, hmode, hskip, hsize, -⟩ := hready
    obtain ⟨engine, ⟨insn, -, hiter⟩ | ⟨-, -, -, hiter⟩ | ⟨hshort, hiter⟩⟩ :=
      Decoder.csDisasmIter_cases (D := D) handle code address
    · cases hiter.symm.trans hstop
    · cases hiter.symm.trans hstop
    · cases hiter.symm.trans hstop
      refine ⟨.rest ?_, harch, hmode, hskip, hsize, rfl⟩
      rw [← hsize]
      exact hshort hskip
  | @step handle next last code address r insns hstep hrest ih =>
    obtain ⟨harch, hmode, hskip, hsize, herr⟩ := hready
    obtain ⟨engine, ⟨insn, hinsn, hiter⟩ | ⟨hnone, -, hle, hiter⟩ | ⟨-, hiter⟩⟩ :=
      Decoder.csDisasmIter_cases (D := D) handle code address
    · cases hiter.symm.trans hstep
      obtain ⟨hlists, hlast⟩ := ih ⟨harch, hmode, hskip, hsize, rfl⟩
      rw [harch, hmode] at hinsn
      exact ⟨.decoded hinsn hlists, hlast⟩
    · cases hiter.symm.trans hstep
      obtain ⟨hlists, hlast⟩ := ih ⟨harch, hmode, hskip, hsize, rfl⟩
      rw [harch, hmode] at hnone
      rw [dataInsn_size hle, hsize] at hlists
      rw [hsize] at hle ⊢
      exact ⟨.skipped hnone hle hlists, hlast⟩
    · cases hiter.symm.trans hstep

/-- The handle of an architecture opens and gets ready. -/
theorem capStone_opens (D : Decoder) (arch : CapStoneArchType) :
    ∃ handle : CsStruct D, D.capStone.csOpen arch.target.1 arch.target.2 = .ok handle ∧
      (arch.options.foldl D.capStone.csOption handle).Ready arch.target.1 arch.target.2 := by
  cases arch with
  | I386 | X8664 => exact ⟨_, rfl, rfl, rfl, rfl, rfl, rfl⟩
  | ARM | ARM64 => exact ⟨_, rfl, rfl, rfl, rfl, rfl, rfl⟩

end Covered

theorem appendInstructions_error (bank : CapStoneInstructionBank) (calls : List AppendCall) :
    (bank.appendInstructions calls).error = bank.error := by
  induction calls generalizing bank with
  | nil => rfl
  | cons c calls ih => exact ih (bank.appendInstruction c.insn c.codeStartAddr)

/-! ## The rows -/

/-- **The rows of a section** are laid out over its bytes, one behind the other, for every instruction it
gives. -/
theorem Produces.laidOut {cs : CapStone} {data : Data} {arch : CapStoneArchType} {virtualAddress : UInt64}
    (haddress : virtualAddress.toNat + data.count < 2 ^ 64) (hdata : data.endIndex < 2 ^ 63)
    {insns : List CsInsn} (hproduces : cs.Produces data arch virtualAddress insns) :
    ∃ ts, (InstructionComponent.runInitializing cs data arch virtualAddress).translations = .ok ts ∧
      ts.map InstructionTranslation.dataRangeInMacho = layOut data.startIndex (sizes insns) := by
  obtain ⟨hbank, hsum⟩ := hproduces.represents
  have haddresses := callsFrom_addresses (show virtualAddress.toNat + (sizes insns).sum < 2 ^ 64 by omega)
  have hend : data.endIndex = data.startIndex + data.count := rfl
  have hbounds : ∀ call ∈ callsFrom virtualAddress insns, virtualAddress.toNat ≤ call.addresses.lower ∧
      call.addresses.upper - virtualAddress.toNat + data.startIndex < 2 ^ 64 := by
    intro call hcall
    have hmem := List.mem_map_of_mem (f := AppendCall.addresses) hcall
    rw [haddresses] at hmem
    obtain ⟨hlower, hupper⟩ := mem_layOut_bounds hmem
    exact ⟨hlower, by omega⟩
  obtain ⟨ts, hts, hranges⟩ := translationAt_all
    (c := .runInitializing cs data arch virtualAddress) hbank hbounds
  refine ⟨ts, ?_, ?_⟩
  · rw [translations_eq_mapM, ← hts, ← hbank.count]
    rfl
  · have hmoved := layOut_moved virtualAddress.toNat data.startIndex 0 (sizes insns)
    rw [Nat.add_zero, Nat.zero_add, ← haddresses] at hmoved
    exact hranges.trans hmoved

/-- **No byte of a code section is lost.** The disassembler opens, and the rows of the section tile it from
its first byte on. Each is what the decoder found at its place, or the bytes there where it found nothing;
what is left behind the last one is shorter than the architecture's `skipdata_size`. -/
theorem disassembly_covers (D : Decoder) (data : Data) (arch : CapStoneArchType) (virtualAddress : UInt64)
    (haddress : virtualAddress.toNat + data.count < 2 ^ 64) (hdata : data.endIndex < 2 ^ 63)
    {c : InstructionComponent} (hc : c = .runInitializing D.capStone data arch virtualAddress) :
    c.instructionBank.error = none ∧
    ∃ insns ts e, D.Lists arch.target.1 arch.target.2 data.bytes insns ∧ c.translations = .ok ts ∧
      (ts.map InstructionTranslation.dataRangeInMacho).map Span.width = sizes insns ∧
      Tiles c.offsetInMacho e (ts.map InstructionTranslation.dataRangeInMacho) ∧
      e ≤ c.offsetInMacho + c.dataSize ∧
      c.offsetInMacho + c.dataSize < e + (skipdataSize arch.target.1).toNat ∧
      (arch.target.1 = .x86 → e = c.offsetInMacho + c.dataSize) := by
  subst hc
  obtain ⟨handle, hopen, hready⟩ := capStone_opens D arch
  obtain ⟨insns, last, hiterates⟩ := @exists_iterates D.capStone data.bytes.length
    (arch.options.foldl D.capStone.csOption handle) data.bytes virtualAddress rfl
  obtain ⟨hlists, hlast⟩ := Iterates.lists hiterates hready
  have hproduces : D.capStone.Produces data arch virtualAddress insns := by
    unfold CapStone.Produces
    simp only [hopen]
    exact ⟨last, hiterates⟩
  obtain ⟨ts, hts, hranges⟩ := Produces.laidOut haddress hdata hproduces
  obtain ⟨hle, hshort⟩ := hlists.covers
  have hcount : data.count = data.bytes.length := rfl
  refine ⟨?_, insns, ts, data.startIndex + (sizes insns).sum, hlists, hts, ?_, ?_, ?_, ?_, ?_⟩
  · have herr : D.capStone.csErrno last = 0 := hlast.noError
    have hbank := hiterates.iterate_eq CapStoneInstructionBank.init
    simp only [InstructionComponent.runInitializing, CapStone.instructionsFrom, hopen, hbank, herr]
    exact appendInstructions_error _ _
  · rw [hranges, layOut_map_width]
  · rw [hranges]
    exact layOut_tiles _ _
  · exact Nat.add_le_add_left hle _
  · simp only [InstructionComponent.runInitializing, InstructionComponent.offsetInMacho,
      InstructionComponent.dataSize]
    omega
  · intro hx86
    rw [hx86] at hshort
    simp only [skipdataSize, InstructionComponent.runInitializing, InstructionComponent.offsetInMacho,
      InstructionComponent.dataSize] at hshort ⊢
    have hone : (1 : UInt8).toNat = 1 := rfl
    omega

/-- A decoder of `nop` and `ret` of ARM64, without any state. -/
def armDecoder : Decoder where
  Engine := Unit
  archInit _ _ := ()
  archOption _ _ engine := engine
  disasm _ _ engine code address := (engine, (armIter code address).map CsIteration.insn)
  fits h := by
    obtain ⟨r, hr, rfl⟩ := Option.map_eq_some_iff.mp (congrArg Prod.snd h)
    obtain ⟨hpos, hle, -, -⟩ := armIter_consumes hr
    refine ⟨hpos, ?_, hle⟩
    unfold armIter at hr
    split at hr
    · cases hr
      exact show (4 : UInt16).toNat ≤ 24 by decide
    · cases hr
      exact show (4 : UInt16).toNat ≤ 24 by decide
    · cases hr

/-- Behind the two instructions one byte is left. -/
theorem disassembly_covers_nopRet : ∃ insns ts e,
    armDecoder.Lists .arm64 .arm nopRetData.bytes insns ∧
    (InstructionComponent.runInitializing armDecoder.capStone nopRetData .ARM64
      0x100000040).translations = .ok ts ∧
    Tiles 0x40 e (ts.map InstructionTranslation.dataRangeInMacho) ∧ e ≤ 0x49 ∧ 0x49 < e + 4 := by
  obtain ⟨-, insns, ts, e, hlists, hts, -, htiles, hle, hshort, -⟩ :=
    disassembly_covers armDecoder nopRetData .ARM64 0x100000040 (by decide) (by decide) rfl
  exact ⟨insns, ts, e, hlists, hts, htiles, hle, hshort⟩

end Mocha
