import Mocha.LoadCommand.Fixed

/-!
# Load commands with a tail of variable length

`LCLinkerOption`, `LCDylib`, `LCMonoString` and `LCBuildVersion`. The tail of each is located by
the size of the command, by a string offset inside it, or by a declared count.

`LCBuildVersion` reads a number of tools between the SDK version and the tools; its display list
does not show that word. `buildVersion_shown` states what the list does show: the three words before
it and, four bytes further on, the tools.
-/

namespace Mocha

open Lib DataShifter

/-! ## Linker options -/

/-- `data.split(separator: 0x00)`, which leaves out empty pieces. -/
def splitNul (bytes : List UInt8) : List (List UInt8) :=
  (bytes.splitOn 0).filter fun piece => !piece.isEmpty

/-- `LCLinkerOption`. -/
structure LCLinkerOption where
  numberOfOptions : Field UInt32
  optionDataLength : Int
  options : Field (List String)
  deriving DecidableEq

/-- `LCLinkerOption.options(from:)`. -/
def LCLinkerOption.optionsFrom (data : Data) : List String :=
  (splitNul data.bytes).map fun piece => (Data.mk 0 piece).utf8String.getD
    (warning "Unexpected, found unknown linker option. Breakpoint to debug")

/-- `LCLinkerOption(with:data:)`. -/
def LCLinkerOption.init (data : Data) : Run LCLinkerOption := do
  let numberOfOptions ← (← data.subSequence 8 4).uint32
  let optionDataLength : Int := data.count - 12
  let optionData ← data.subSequenceFrom 12
  return { numberOfOptions, optionDataLength, options := ⟨optionsFrom optionData, optionData.span⟩ }

/-- `UInt64(bytesCount)`, the conversion every translation makes of its byte count. -/
def byteCount (n : Int) : Run Nat := if 0 ≤ n then .ok n.toNat else .error .overflow

/-- `LCLinkerOption.commandTranslations`. -/
def LCLinkerOption.commandTranslations (c : LCLinkerOption) : Run (List GeneralTranslation) := do
  let length ← byteCount c.optionDataLength
  return [c.numberOfOptions.decimalWord "Number of options",
    c.options.translation "Options(s)" (joined " " c.options.value) length .utf8String]

/-! ## Paths -/

/-- `LCDylib`. -/
structure LCDylib where
  libPathOffset : Field UInt32
  libPathDataCount : Int
  libPath : Field String
  timestamp : Field UInt32
  currentVersion : Field String
  compatibilityVersion : Field String
  deriving DecidableEq

/-- `LCDylib(with:data:)`. The path is read where the cursor stands, with the length the path
offset leaves. -/
def LCDylib.init (data : Data) : Run LCDylib := do
  let s := (DataShifter.init data).skip .quadWords
  let (libPathOffset, s) ← s.shiftUInt32
  let (timestamp, s) ← s.shiftUInt32
  let (currentVersion, s) ← s.shiftUInt32
  let (compatibilityVersion, s) ← s.shiftUInt32
  let libPathDataCount : Int := data.count - libPathOffset.value.toNat
  let (pathData, _) ← s.shift (.rawNumber libPathDataCount)
  let libPath := (pathData.utf8String.map spaceRemoved).getD
    (warning "Failed to parse dylib path. Debug me.")
  return {
    libPathOffset := libPathOffset
    libPathDataCount := libPathDataCount
    libPath := ⟨libPath, pathData.span⟩
    timestamp := timestamp
    currentVersion := currentVersion.map versionString
    compatibilityVersion := compatibilityVersion.map versionString }

/-- `LCDylib.commandTranslations`. -/
def LCDylib.commandTranslations (c : LCDylib) : Run (List GeneralTranslation) := do
  let length ← byteCount c.libPathDataCount
  return [c.libPathOffset.decimalWord "Path Offset",
    c.timestamp.decimalWord "Build Time",
    c.currentVersion.translation "Version" c.currentVersion.value 4 .versionString,
    c.compatibilityVersion.translation "Compatible Version" c.compatibilityVersion.value 4
      .versionString,
    c.libPath.translation "Path" c.libPath.value length .utf8String]

/-- `LCMonoString`. -/
structure LCMonoString where
  stringOffset : Field UInt32
  stringLength : Int
  string : Field String
  deriving DecidableEq

/-- `LCMonoString(with:data:)`. -/
def LCMonoString.init (type : LoadCommandType) (data : Data) : Run LCMonoString := do
  let stringOffset ← (← data.subSequence 8 4).uint32
  let stringLength : Int := data.count - stringOffset.value.toNat
  let stringData ← data.subSequenceFrom stringOffset.value.toNat
  let string := stringData.utf8String.getD (warning ("Failed to parse " ++ type.name ++ ". Debug me."))
  return { stringOffset, stringLength, string := ⟨string, stringData.span⟩ }

/-- `LCMonoString.commandTranslations`. -/
def LCMonoString.commandTranslations (c : LCMonoString) : Run (List GeneralTranslation) := do
  let length ← byteCount c.stringLength
  return [c.stringOffset.hexWord "String Offset",
    c.string.translation "Content" c.string.value length .utf8String]

/-! ## Build versions -/

/-- `LCBuildTool`. -/
structure LCBuildTool where
  toolType : Field BuildToolType
  version : Field String
  deriving DecidableEq

/-- One turn of the tool loop. -/
def nextBuildTool (s : DataShifter) : Run (LCBuildTool × DataShifter) := do
  let (raw, s) ← s.shiftUInt32
  let toolType ← unwrap (BuildToolType.ofRaw? raw.value)
  let (version, s) ← s.shiftUInt32
  return ({ toolType := raw.map fun _ => toolType, version := version.map versionString }, s)

/-- `for _ in 0..<self.numberOfTools`. -/
def buildTools : Nat → DataShifter → Run (List LCBuildTool)
  | 0, _ => .ok []
  | n + 1, s => do
    let (tool, s) ← nextBuildTool s
    let tools ← buildTools n s
    return tool :: tools

/-- `LCBuildVersion`. -/
structure LCBuildVersion where
  platform : Field (Option BuildPlatform)
  minOSVersion : Field String
  sdkVersion : Field String
  numberOfTools : Field UInt32
  buildTools : List LCBuildTool
  deriving DecidableEq

/-- `LCBuildVersion(with:data:)`. -/
def LCBuildVersion.init (data : Data) : Run LCBuildVersion := do
  let s := (DataShifter.init data).skip .quadWords
  let (platform, s) ← s.shiftUInt32
  let (minOSVersion, s) ← s.shiftUInt32
  let (sdkVersion, s) ← s.shiftUInt32
  let (numberOfTools, s) ← s.shiftUInt32
  let tools ← Mocha.buildTools numberOfTools.value.toNat s
  return {
    platform := platform.map BuildPlatform.ofRaw?
    minOSVersion := minOSVersion.map versionString
    sdkVersion := sdkVersion.map versionString
    numberOfTools := numberOfTools
    buildTools := tools }

/-- The two entries of a tool. -/
def LCBuildTool.translations (t : LCBuildTool) : List GeneralTranslation :=
  [t.toolType.translation "Build Tool Name" t.toolType.value.readable 4 .numberEnum,
   t.version.translation "Build Tool Version" ("(" ++ t.version.value) 4 .versionString]

/-- The part of `LCBuildVersion.commandTranslations` before the tools. -/
def LCBuildVersion.headTranslations (c : LCBuildVersion) : List GeneralTranslation :=
  [c.platform.translation "Target Platform"
     ((c.platform.value.map BuildPlatform.readable).getD "⚠️ Unknown Platform. Contact the author.")
     4 .numberEnum,
   c.minOSVersion.translation "Min OS Version" c.minOSVersion.value 4 .versionString,
   c.sdkVersion.translation "Min SDK Version" c.sdkVersion.value 4 .versionString]

/-- `LCBuildVersion.commandTranslations`. -/
def LCBuildVersion.commandTranslations (c : LCBuildVersion) : List GeneralTranslation :=
  c.headTranslations ++ c.buildTools.flatMap LCBuildTool.translations

/-! ## What the initializers compute -/

section Init

variable {d : Data}

theorem byteCount_eq_ok {n : Int} {m : Nat} : byteCount n = .ok m ↔ n = m := by
  unfold byteCount
  by_cases h : 0 ≤ n
  · rw [if_pos h, Except.ok.injEq]
    omega
  · rw [if_neg h]
    constructor
    · intro hn
      cases hn
    · intro hn
      omega

theorem linkerOption_init_eq_ok {c : LCLinkerOption} :
    LCLinkerOption.init d = .ok c ↔ 12 < d.count ∧
      c = ⟨d.uint32At 8, (d.count : Int) - 12,
        ⟨LCLinkerOption.optionsFrom (d.window 12 (d.count - 12)),
          Span.of (d.startIndex + 12) (d.count - 12)⟩⟩ := by
  unfold LCLinkerOption.init
  rw [Data.subSequence_uint32_bind]
  simp only [bind_eq_ok, Data.subSequenceFrom_eq_ok, pure_eq_ok, Except.ok.injEq]
  constructor
  · rintro ⟨_, _, ⟨hlt, rfl⟩, rfl⟩
    rw [Data.window_span d (by omega)]
    exact ⟨hlt, rfl⟩
  · rintro ⟨hlt, rfl⟩
    refine ⟨by omega, _, ⟨hlt, rfl⟩, ?_⟩
    rw [Data.window_span d (by omega)]

/-- The dylib command at the start of `d`, with a path of `n` bytes. -/
def LCDylib.layout (d : Data) (n : Nat) : LCDylib :=
  { libPathOffset := d.uint32At 8
    libPathDataCount := n
    libPath := ⟨((d.window 24 n).utf8String.map spaceRemoved).getD
      (warning "Failed to parse dylib path. Debug me."), Span.of (d.startIndex + 24) n⟩
    timestamp := d.uint32At 12
    currentVersion := (d.uint32At 16).map versionString
    compatibilityVersion := (d.uint32At 20).map versionString }

theorem dylib_init_eq_ok {c : LCDylib} :
    LCDylib.init d = .ok c ↔ 24 ≤ (d.uint32At 8).value.toNat ∧
      (d.uint32At 8).value.toNat < d.count ∧
      c = LCDylib.layout d (d.count - (d.uint32At 8).value.toNat) := by
  unfold LCDylib.init
  simp (disch := decide) only [init_eq, skip_quadWords, shiftUInt32_bind, Nat.reduceAdd,
    Nat.zero_add, le_absorb]
  generalize (d.uint32At 8).value.toNat = o
  constructor
  · rintro ⟨hle, h⟩
    rw [bind_eq_ok] at h
    obtain ⟨⟨e, t⟩, hs, h⟩ := h
    obtain ⟨-, -, hpos, hend⟩ := shift_forward hs
    simp only [Straddle.raw, cursor] at hpos hend
    have hn : (d.count : Int) - o = (d.count - o : Nat) := by omega
    rw [hn, shift_rawNumber] at hs
    obtain ⟨_, hwin, hs⟩ := hs
    cases hs
    simp only [pure_eq_ok, Except.ok.injEq, Data.window_span d hwin, hn] at h
    exact ⟨by omega, by omega, h.symm⟩
  · rintro ⟨hlow, hlt, rfl⟩
    have hn : (d.count : Int) - o = (d.count - o : Nat) := by omega
    have hwin : 24 + (d.count - o) ≤ d.count := by omega
    refine ⟨by omega, ?_⟩
    rw [hn, shift_rawNumber_bind]
    refine ⟨by omega, hwin, ?_⟩
    simp only [pure_eq_ok, Data.window_span d hwin]
    rfl

theorem monoString_init_eq_ok {type : LoadCommandType} {c : LCMonoString} :
    LCMonoString.init type d = .ok c ↔ 12 ≤ d.count ∧ (d.uint32At 8).value.toNat < d.count ∧
      c = ⟨d.uint32At 8, (d.count : Int) - (d.uint32At 8).value.toNat,
        ⟨(d.window (d.uint32At 8).value.toNat
            (d.count - (d.uint32At 8).value.toNat)).utf8String.getD
            (warning ("Failed to parse " ++ type.name ++ ". Debug me.")),
          Span.of (d.startIndex + (d.uint32At 8).value.toNat)
            (d.count - (d.uint32At 8).value.toNat)⟩⟩ := by
  unfold LCMonoString.init
  rw [Data.subSequence_uint32_bind]
  simp only [bind_eq_ok, Data.subSequenceFrom_eq_ok, pure_eq_ok, Except.ok.injEq]
  constructor
  · rintro ⟨hle, _, ⟨hlt, rfl⟩, rfl⟩
    rw [Data.window_span d (by omega)]
    exact ⟨hle, hlt, rfl⟩
  · rintro ⟨hle, hlt, rfl⟩
    refine ⟨hle, _, ⟨hlt, rfl⟩, ?_⟩
    rw [Data.window_span d (by omega)]

theorem nextBuildTool_eq_ok {k : Nat} {r : LCBuildTool × DataShifter} :
    nextBuildTool (cursor d k) = .ok r ↔ k + 8 ≤ d.count ∧
      ∃ type, BuildToolType.ofRaw? (d.uint32At k).value = some type ∧
        r = (⟨(d.uint32At k).map fun _ => type, (d.uint32At (k + 4)).map versionString⟩,
          cursor d (k + 8)) := by
  unfold nextBuildTool
  simp only [shiftUInt32_bind, unwrap_bind, pure_eq_ok, Except.ok.injEq, Nat.add_assoc,
    Nat.reduceAdd]
  constructor
  · rintro ⟨_, type, htype, hle, rfl⟩
    exact ⟨hle, type, htype, rfl⟩
  · rintro ⟨hle, type, htype, rfl⟩
    exact ⟨by omega, type, htype, hle, rfl⟩

theorem buildVersion_init_eq_ok {c : LCBuildVersion} :
    LCBuildVersion.init d = .ok c ↔ 24 ≤ d.count ∧
      ∃ tools, buildTools (d.uint32At 20).value.toNat (cursor d 24) = .ok tools ∧
        c = ⟨(d.uint32At 8).map BuildPlatform.ofRaw?, (d.uint32At 12).map versionString,
          (d.uint32At 16).map versionString, d.uint32At 20, tools⟩ := by
  unfold LCBuildVersion.init
  simp (disch := decide) only [init_eq, skip_quadWords, shiftUInt32_bind, Nat.reduceAdd,
    Nat.zero_add, le_absorb]
  constructor
  · rintro ⟨hle, h⟩
    simp only [bind_eq_ok, pure_eq_ok, Except.ok.injEq] at h
    obtain ⟨tools, htools, rfl⟩ := h
    exact ⟨hle, tools, htools, rfl⟩
  · rintro ⟨hle, tools, htools, rfl⟩
    refine ⟨hle, ?_⟩
    rw [htools]
    rfl

end Init

/-! ## What the display lists show -/

section Lists

variable {d : Data}

theorem linkerOption_shown {c : LCLinkerOption} {ts : List GeneralTranslation}
    (h : LCLinkerOption.init d = .ok c) (ht : c.commandTranslations = .ok ts) :
    Shown (d.startIndex + 8) (d.startIndex + d.count) ts := by
  obtain ⟨hlt, rfl⟩ := linkerOption_init_eq_ok.mp h
  simp only [LCLinkerOption.commandTranslations, bind_eq_ok, byteCount_eq_ok, pure_eq_ok,
    Except.ok.injEq] at ht
  obtain ⟨n, hn, rfl⟩ := ht
  have hn : d.count - 12 = n := by omega
  subst hn
  simp only [Shown, decimalWord_shows, decimalWord_bytesCount, Data.uint32At_span,
    Field.translation_shows, Field.translation_bytesCount, Nat.add_assoc, true_and]
  omega

/-- The path is shown where it is when it starts right after the fixed part. -/
theorem dylib_shown {c : LCDylib} {ts : List GeneralTranslation} (h : LCDylib.init d = .ok c)
    (ho : c.libPathOffset.value = 24) (ht : c.commandTranslations = .ok ts) :
    Shown (d.startIndex + 8) (d.startIndex + d.count) ts := by
  obtain ⟨hlow, hlt, rfl⟩ := dylib_init_eq_ok.mp h
  have ho : (d.uint32At 8).value.toNat = 24 := congrArg UInt32.toNat ho
  rw [ho] at hlt ht
  simp only [LCDylib.commandTranslations, LCDylib.layout, bind_eq_ok, byteCount_eq_ok, pure_eq_ok,
    Except.ok.injEq] at ht
  obtain ⟨n, hn, rfl⟩ := ht
  have hn : n = d.count - 24 := by omega
  subst hn
  simp only [Shown, decimalWord_shows, decimalWord_bytesCount, Data.uint32At_span,
    Field.translation_shows, Field.translation_bytesCount, Field.map_span, Nat.add_assoc,
    Nat.reduceAdd, true_and]
  omega

theorem monoString_shown {type : LoadCommandType} {c : LCMonoString}
    {ts : List GeneralTranslation} (h : LCMonoString.init type d = .ok c)
    (ho : c.stringOffset.value = 12) (ht : c.commandTranslations = .ok ts) :
    Shown (d.startIndex + 8) (d.startIndex + d.count) ts := by
  obtain ⟨hle, hlt, rfl⟩ := monoString_init_eq_ok.mp h
  have ho : (d.uint32At 8).value.toNat = 12 := congrArg UInt32.toNat ho
  rw [ho] at hlt ht
  simp only [LCMonoString.commandTranslations, bind_eq_ok, byteCount_eq_ok, pure_eq_ok,
    Except.ok.injEq] at ht
  obtain ⟨n, hn, rfl⟩ := ht
  have hn : n = d.count - 12 := by omega
  subst hn
  simp only [Shown, hexWord_shows, hexWord_bytesCount, Data.uint32At_span,
    Field.translation_shows, Field.translation_bytesCount, Nat.add_assoc, Nat.reduceAdd, true_and]
  omega

/-- The tools are shown where they are, eight bytes each. -/
theorem buildTools_shown : ∀ {n k : Nat} {tools : List LCBuildTool},
    buildTools n (cursor d k) = .ok tools →
      tools.length = n ∧ (k ≤ d.count → k + 8 * n ≤ d.count) ∧
      Shown (d.startIndex + k) (d.startIndex + (k + 8 * n))
        (tools.flatMap LCBuildTool.translations)
  | 0, k, _, h => by
    cases h
    exact ⟨rfl, id, rfl⟩
  | n + 1, k, _, h => by
    simp only [buildTools, bind_eq_ok, pure_eq_ok, Except.ok.injEq] at h
    obtain ⟨⟨tool, s⟩, hnext, tools, hrest, rfl⟩ := h
    obtain ⟨hle, type, _, hr⟩ := nextBuildTool_eq_ok.mp hnext
    cases hr
    obtain ⟨hlen, hbound, hshown⟩ := buildTools_shown hrest
    refine ⟨congrArg Nat.succ hlen, fun _ => by have := hbound hle; omega, ?_⟩
    have hend : k + 8 * (n + 1) = k + 8 + 8 * n := by omega
    rw [List.flatMap_cons, hend]
    refine Shown.append ?_ hshown
    simp [LCBuildTool.translations, Shown, Nat.add_assoc]

/-- The number of tools is read and not shown: the list shows the bytes before it and the bytes
after it. -/
theorem buildVersion_shown {c : LCBuildVersion} (h : LCBuildVersion.init d = .ok c) :
    24 + 8 * c.buildTools.length ≤ d.count ∧
      c.buildTools.length = c.numberOfTools.value.toNat ∧
      c.numberOfTools.span = Span.of (d.startIndex + 20) 4 ∧
      Shown (d.startIndex + 8) (d.startIndex + 20) c.headTranslations ∧
      Shown (d.startIndex + 24) (d.startIndex + (24 + 8 * c.buildTools.length))
        (c.buildTools.flatMap LCBuildTool.translations) := by
  obtain ⟨hle, tools, htools, rfl⟩ := buildVersion_init_eq_ok.mp h
  obtain ⟨hlen, hbound, hshown⟩ := buildTools_shown htools
  rw [← hlen] at hbound hshown
  exact ⟨hbound hle, hlen, rfl, by simp [LCBuildVersion.headTranslations, Shown, Nat.add_assoc],
    hshown⟩

end Lists

end Mocha
