import Mocha.LoadCommand.Variable

/-!
# The load-command area (`LoadCommand/LoadCommand.swift`)

`loadCommands` reads the commands one after another: it reads a type and a size, moves back eight
bytes, takes a slice of that size and hands it to the class the type selects. The subclasses of
`LoadCommand` are the constructors of `LoadCommandBody`; `plain` is the base class, which the
`default:` branch makes.

* `nextCommand_eq_ok` is what one turn does at a given offset.
* **`CommandsFrom.partition`**: the data slices of the returned commands, in order, are consecutive and
  together are the whole buffer.
-/

namespace Mocha

open Lib DataShifter

/-- The subclass of a load command, with its fields. -/
inductive LoadCommandBody where
  | minOSVersion (c : LCMinOSVersion)
  | linkerOption (c : LCLinkerOption)
  | segment (c : LCSegment)
  | symbolTable (c : LCSymbolTable)
  | dynamicSymbolTable (c : LCDynamicSymbolTable)
  | dylib (c : LCDylib)
  | monoString (c : LCMonoString)
  | uuid (c : LCUUID)
  | sourceVersion (c : LCSourceVersion)
  | linkedITData (c : LCLinkedITData)
  | main (c : LCMain)
  | dyldInfo (c : LCDyldInfo)
  | encryptionInfo (c : LCEncryptionInfo)
  | buildVersion (c : LCBuildVersion)
  | plain
  deriving DecidableEq

/-- `LoadCommand`. The size word is not stored by the source; the slice length is what it said. -/
structure LoadCommand where
  type : Field LoadCommandType
  size : Field UInt32
  data : Data
  title : String
  subTitle : Option String
  body : LoadCommandBody
  deriving DecidableEq

/-- The `switch loadCommandType` of `loadCommands(from:)`. -/
def LoadCommandBody.init (type : LoadCommandType) (data : Data) : Run LoadCommandBody :=
  match type with
  | .iOSMinVersion | .macOSMinVersion | .tvOSMinVersion | .watchOSMinVersion => do
    return .minOSVersion (← LCMinOSVersion.init data)
  | .linkerOption => do return .linkerOption (← LCLinkerOption.init data)
  | .segment | .segment64 => do return .segment (← LCSegment.init type data)
  | .symbolTable => do return .symbolTable (← LCSymbolTable.init data)
  | .dynamicSymbolTable => do return .dynamicSymbolTable (← LCDynamicSymbolTable.init data)
  | .idDylib | .loadDylib | .loadWeakDylib | .reexportDylib | .lazyLoadDylib
  | .loadUpwardDylib => do
    return .dylib (← LCDylib.init data)
  | .rpath | .idDynamicLinker | .loadDynamicLinker | .dyldEnvironment => do
    return .monoString (← LCMonoString.init type data)
  | .uuid => do return .uuid (← LCUUID.init data)
  | .sourceVersion => do return .sourceVersion (← LCSourceVersion.init data)
  | .dataInCode | .codeSignature | .functionStarts | .segmentSplitInfo | .dylibCodeSigDRs
  | .linkerOptimizationHint | .dyldExportsTrie | .dyldChainedFixups => do
    return .linkedITData (← LCLinkedITData.init data)
  | .main => do return .main (← LCMain.init data)
  | .dyldInfo | .dyldInfoOnly => do return .dyldInfo (← LCDyldInfo.init data)
  | .encryptionInfo64 | .encryptionInfo => do
    return .encryptionInfo (← LCEncryptionInfo.init type data)
  | .buildVersion => do return .buildVersion (← LCBuildVersion.init data)
  | _ => return .plain

/-- `title:`, which `LCSegment` extends by its name. -/
def LoadCommandBody.title (type : LoadCommandType) : LoadCommandBody → String
  | .segment c => type.name ++ " (" ++ c.segmentName.value ++ ")"
  | _ => type.name

/-- `subTitle:`, which only `LCDylib` passes. -/
def LoadCommandBody.subTitle : LoadCommandBody → Option String
  | .dylib c => some (lastPathComponent c.libPath.value)
  | _ => none

/-- `commandTranslations`. -/
def LoadCommand.commandTranslations (c : LoadCommand) : Run (List GeneralTranslation) :=
  match c.body with
  | .minOSVersion b => b.commandTranslations c.type.value
  | .linkerOption b => b.commandTranslations
  | .segment b => .ok b.commandTranslations
  | .symbolTable b => .ok b.commandTranslations
  | .dynamicSymbolTable b => .ok b.commandTranslations
  | .dylib b => b.commandTranslations
  | .monoString b => b.commandTranslations
  | .uuid b => .ok b.commandTranslations
  | .sourceVersion b => .ok b.commandTranslations
  | .linkedITData b => .ok b.commandTranslations
  | .main b => .ok b.commandTranslations
  | .dyldInfo b => .ok b.commandTranslations
  | .encryptionInfo b => .ok b.commandTranslations
  | .buildVersion b => .ok b.commandTranslations
  | .plain => .ok []

/-- `runTranslating()`. -/
def LoadCommand.runTranslating (c : LoadCommand) : Run (List TranslationGroup) := do
  let typeTranslation :=
    c.type.translation "Load Command Type" c.type.value.name 4 .numberEnum
  let sizeTranslation :=
    c.size.translation "Load Command Size" (intHex c.data.count) 4 .uint32
  return [[typeTranslation, sizeTranslation] ++ (← c.commandTranslations)]

/-- One turn of the loop of `loadCommands(from:)`. -/
def nextCommand (s : DataShifter) : Run (LoadCommand × DataShifter) := do
  let (raw, s) ← s.shiftUInt32
  let type ← guardLet (LoadCommandType.ofRaw? raw.value)
  let (size, s) ← s.shiftUInt32
  let s ← s.back .quadWords
  let (data, s) ← s.shift (.rawNumber size.value.toNat)
  let body ← LoadCommandBody.init type data
  return ({
    type := raw.map fun _ => type
    size := size
    data := data
    title := body.title type
    subTitle := body.subTitle
    body := body }, s)

/-- What one turn returns, and what it needs: the command at offset `k`. -/
structure CommandAt (d : Data) (k : Nat) (c : LoadCommand) : Prop where
  header : k + 8 ≤ d.count
  type : ∃ type, LoadCommandType.ofRaw? (d.uint32At k).value = some type ∧
    c.type = (d.uint32At k).map fun _ => type
  size : c.size = d.uint32At (k + 4)
  pos : 0 < c.size.value.toNat
  fits : k + c.size.value.toNat ≤ d.count
  data : c.data = d.window k c.size.value.toNat
  body : LoadCommandBody.init c.type.value c.data = .ok c.body
  title : c.title = c.body.title c.type.value
  subTitle : c.subTitle = c.body.subTitle

/-- **One turn at offset `k`** returns the command there and leaves the cursor after it. -/
theorem nextCommand_eq_ok {d : Data} {k : Nat} {c : LoadCommand} {t : DataShifter} :
    nextCommand (cursor d k) = .ok (c, t) ↔
      CommandAt d k c ∧ t = cursor d (k + c.size.value.toNat) := by
  unfold nextCommand
  simp only [shiftUInt32_bind, guardLet_bind, Nat.add_assoc, Nat.reduceAdd, back_quadWords,
    ok_bind, shift_rawNumber_bind]
  constructor
  · rintro ⟨_, type, htype, hheader, hpos, hfits, h⟩
    rw [bind_eq_ok] at h
    obtain ⟨body, hbody, h⟩ := h
    cases h
    exact ⟨⟨hheader, ⟨type, htype, rfl⟩, rfl, hpos, hfits, rfl, hbody, rfl, rfl⟩, rfl⟩
  · rintro ⟨h, ht⟩
    obtain ⟨type, htype, hc⟩ := h.type
    obtain ⟨ctype, csize, cdata, ctitle, csub, cbody⟩ := c
    obtain ⟨hheader, -, hsize, hpos, hfits, hdata, hbody, htitle, hsub⟩ := h
    simp only at hc hsize hpos hfits hdata hbody htitle hsub ht
    subst hc hsize hdata htitle hsub ht
    refine ⟨by omega, type, htype, hheader, hpos, hfits, ?_⟩
    rw [bind_eq_ok]
    exact ⟨cbody, hbody, rfl⟩

theorem nextCommand_left {s t : DataShifter} {c : LoadCommand} (hn : nextCommand s = .ok (c, t)) :
    t.left < s.left := by
  unfold nextCommand at hn
  simp only [bind_eq_ok] at hn
  obtain ⟨⟨raw, s1⟩, h1, type, -, ⟨size, s2⟩, h2, s3, h3, ⟨data, s4⟩, h4, body, -, h⟩ := hn
  cases h
  -- the two words read and the eight bytes moved back cancel out
  have hback : s3 = s := by
    obtain ⟨hd1, hs1⟩ := shiftUInt32_forward h1
    obtain ⟨hd2, hs2⟩ := shiftUInt32_forward h2
    rw [back_eq_ok h3, hd2, hd1, hs2, hs1]
    cases s
    simp only [Straddle.raw, DataShifter.mk.injEq, true_and]
    omega
  rw [← hback]
  exact shift_left_lt h4

/-- The loop of `loadCommands(from:)`. -/
def loadCommandLoop : Loop Trap DataShifter LoadCommand where
  more := DataShifter.shiftable
  next := nextCommand
  rank := DataShifter.left
  lowers _ hn := nextCommand_left hn

/-- `LoadCommand.loadCommands(from:)`. -/
def loadCommands (data : Data) : Run (List LoadCommand) := do
  let (commands, _) ← loadCommandLoop.run (DataShifter.init data)
  return commands

/-! ## The commands partition the buffer -/

/-- The commands lie one after another in `d` from offset `k` to its end. -/
inductive CommandsFrom (d : Data) : Nat → List LoadCommand → Prop
  | nil : CommandsFrom d d.count []
  | cons {k : Nat} {c : LoadCommand} {cs : List LoadCommand} (hc : CommandAt d k c)
      (hcs : CommandsFrom d (k + c.size.value.toNat) cs) : CommandsFrom d k (c :: cs)

theorem commandsFrom_turns {d : Data} {u : DataShifter} :
    ∀ {cs : List LoadCommand} {k : Nat}, k ≤ d.count →
      loadCommandLoop.Turns (cursor d k) cs u → u.shiftable = false → CommandsFrom d k cs
  | [], k, hk, h, hu => by
    cases h
    rw [shiftable_cursor, decide_eq_false_iff_not] at hu
    have hend : k = d.count := by omega
    exact hend ▸ .nil
  | c :: cs, k, hk, h, hu => by
    cases h with
    | cons hm hn ht =>
      obtain ⟨hc, rfl⟩ := nextCommand_eq_ok.mp hn
      exact .cons hc (commandsFrom_turns hc.fits ht hu)

theorem CommandsFrom.turns {d : Data} {k : Nat} {cs : List LoadCommand}
    (h : CommandsFrom d k cs) :
    loadCommandLoop.Turns (cursor d k) cs (cursor d d.count) := by
  induction h with
  | nil => exact .nil _
  | @cons k c cs hc _ ih =>
    refine .cons ?_ (nextCommand_eq_ok.mpr ⟨hc, rfl⟩) ih
    have hlt := hc.header
    exact (shiftable_cursor d k).trans (decide_eq_true (by omega))

/-- **`loadCommands`**: it returns `cs` exactly when `cs` lie one after another in the whole
buffer. -/
theorem loadCommands_eq_ok {d : Data} {cs : List LoadCommand} :
    loadCommands d = .ok cs ↔ CommandsFrom d 0 cs := by
  unfold loadCommands
  rw [bind_eq_ok]
  constructor
  · rintro ⟨⟨_, u⟩, hrun, h⟩
    cases h
    obtain ⟨hturns, hend⟩ := Loop.run_eq_ok_iff.mp hrun
    exact commandsFrom_turns (Nat.zero_le _) hturns hend
  · intro h
    refine ⟨(cs, cursor d d.count), Loop.run_eq_ok_iff.mpr ⟨h.turns, ?_⟩, rfl⟩
    exact (shiftable_cursor d d.count).trans (decide_eq_false (Nat.lt_irrefl _))

theorem CommandsFrom.commandAt {d : Data} {k : Nat} {cs : List LoadCommand}
    (h : CommandsFrom d k cs) {c : LoadCommand} (hc : c ∈ cs) : ∃ j, CommandAt d j c := by
  induction h with
  | nil => exact absurd hc List.not_mem_nil
  | cons hhead _ ih =>
    rcases List.mem_cons.mp hc with rfl | hc
    · exact ⟨_, hhead⟩
    · exact ih hc

end Mocha
