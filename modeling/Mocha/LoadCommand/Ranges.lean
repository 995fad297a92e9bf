import Mocha.LoadCommand.LoadCommand

/-!
# The ranges of a load command

`LoadCommand.runTranslating` shows the type and the size and then the display list of the class.
`WellFormed` is the layout the command's declared size has to have: its fixed part and exactly the
declared tail, with a string right after the fixed part. `RangesCover` is what the ranges are for:
the byte counts add up to the command, so every range lies inside it, and for a command with a tail
each range is the interval its field was decoded from.

**`rangesCover_iff`**: a well-formed command of a dedicated class has such ranges exactly when it is
not an `LC_BUILD_VERSION`. That class leaves its number of tools out of the display list, so its
byte counts are four short and every tool is shown four bytes early.
-/

namespace Mocha

open Lib DataShifter

/-- What the initializer of the class says about the fields. -/
def LoadCommandBody.Made (type : LoadCommandType) (d : Data) : LoadCommandBody → Prop
  | .minOSVersion c => LCMinOSVersion.init d = .ok c ∧ ∃ os, LCMinOSVersion.osName type = .ok os
  | .linkerOption c => LCLinkerOption.init d = .ok c
  | .segment c => LCSegment.init type d = .ok c
  | .symbolTable c => LCSymbolTable.init d = .ok c
  | .dynamicSymbolTable c => LCDynamicSymbolTable.init d = .ok c
  | .dylib c => LCDylib.init d = .ok c
  | .monoString c => LCMonoString.init type d = .ok c
  | .uuid c => LCUUID.init d = .ok c
  | .sourceVersion c => LCSourceVersion.init d = .ok c
  | .linkedITData c => LCLinkedITData.init d = .ok c ∧ ∃ name, LCLinkedITData.dataName type = .ok name
  | .main c => LCMain.init d = .ok c
  | .dyldInfo c => LCDyldInfo.init d = .ok c
  | .encryptionInfo c => LCEncryptionInfo.init type d = .ok c
  | .buildVersion c => type = .buildVersion ∧ LCBuildVersion.init d = .ok c
  | .plain => True

/-- **The class a command was given is the class that read it.** -/
theorem made_of_init {type : LoadCommandType} {d : Data} {b : LoadCommandBody}
    (h : LoadCommandBody.init type d = .ok b) : b.Made type d := by
  cases type <;>
    simp only [LoadCommandBody.init, bind_eq_ok, pure_eq_ok, Except.ok.injEq] at h <;>
    first
    | (obtain ⟨c, hc, rfl⟩ := h
       first
       | exact hc
       | exact ⟨hc, _, rfl⟩
       | exact ⟨rfl, hc⟩)
    | (subst h; trivial)

/-- The classes whose commands have a tail. -/
def LoadCommandBody.VariableSize : LoadCommandBody → Prop
  | .segment _ | .buildVersion _ | .dylib _ | .monoString _ | .linkerOption _ => True
  | _ => False

/-- A command of a dedicated class whose size is its fixed part and exactly the declared tail. The
options of a linker-option command are whatever follows its count. -/
def LoadCommand.WellFormed (c : LoadCommand) : Prop :=
  match c.body with
  | .minOSVersion _ => c.data.count = 16
  | .linkerOption _ => True
  | .segment b => c.data.count =
      segmentHeadSize b.is64Bit + b.numberOfSections.value.toNat * sectionHeaderSize b.is64Bit
  | .symbolTable _ => c.data.count = 24
  | .dynamicSymbolTable _ => c.data.count = 80
  | .dylib b => b.libPathOffset.value = 24
  | .monoString b => b.stringOffset.value = 12
  | .uuid _ => c.data.count = 24
  | .sourceVersion _ => c.data.count = 16
  | .linkedITData _ => c.data.count = 16
  | .main _ => c.data.count = 24
  | .dyldInfo _ => c.data.count = 48
  | .encryptionInfo _ => c.data.count = encryptionInfoSize (c.type.value == .encryptionInfo64)
  | .buildVersion b => c.data.count = 24 + 8 * b.numberOfTools.value.toNat
  | .plain => False

/-- The byte counts add up to the command, every range lies inside it, and the ranges of a command
with a tail are the intervals its fields were decoded from. -/
def LoadCommand.RangesCover (c : LoadCommand) : Prop :=
  ∃ gs, c.runTranslating = .ok gs ∧
    (gs.flatten.map GeneralTranslation.bytesCount).sum = c.data.count ∧
    (∀ s ∈ ranges (fixTranslationDataRange c.data.startIndex gs),
      c.data.startIndex ≤ s.lower ∧ s.upper ≤ c.data.endIndex) ∧
    (c.body.VariableSize → ∀ t ∈ (fixTranslationDataRange c.data.startIndex gs).flatten,
      t.dataRangeInMacho = some t.shows)

/-! ## The display lists of the classes -/

section Bodies

variable {type : LoadCommandType} {d : Data}

theorem sum_of_shown {ts : List GeneralTranslation} {a n : Nat} (h : Shown (a + 8) (a + n) ts) :
    8 + (ts.map GeneralTranslation.bytesCount).sum = n := by
  have hsum := h.sum
  omega

theorem byteCount_ok {n : Int} (h : 0 ≤ n) : byteCount n = .ok n.toNat := if_pos h

theorem linkerOption_translates {c : LCLinkerOption} (h : LCLinkerOption.init d = .ok c) :
    ∃ ts, c.commandTranslations = .ok ts := by
  have hlen : 0 ≤ c.optionDataLength := by
    obtain ⟨hlt, rfl⟩ := linkerOption_init_eq_ok.mp h
    simp only
    omega
  unfold LCLinkerOption.commandTranslations
  rw [byteCount_ok hlen]
  exact ⟨_, rfl⟩

theorem dylib_translates {c : LCDylib} (h : LCDylib.init d = .ok c) :
    ∃ ts, c.commandTranslations = .ok ts := by
  have hlen : 0 ≤ c.libPathDataCount := by
    obtain ⟨_, _, rfl⟩ := dylib_init_eq_ok.mp h
    exact Int.natCast_nonneg _
  unfold LCDylib.commandTranslations
  rw [byteCount_ok hlen]
  exact ⟨_, rfl⟩

theorem monoString_translates {c : LCMonoString} (h : LCMonoString.init type d = .ok c) :
    ∃ ts, c.commandTranslations = .ok ts := by
  have hlen : 0 ≤ c.stringLength := by
    obtain ⟨_, hlt, rfl⟩ := monoString_init_eq_ok.mp h
    simp only
    omega
  unfold LCMonoString.commandTranslations
  rw [byteCount_ok hlen]
  exact ⟨_, rfl⟩

theorem minOSVersion_translates {c : LCMinOSVersion} {os : String}
    (h : LCMinOSVersion.osName type = .ok os) : ∃ ts, c.commandTranslations type = .ok ts := by
  unfold LCMinOSVersion.commandTranslations
  rw [h]
  exact ⟨_, rfl⟩

/-- The byte counts of a build version: four fewer than the command has. -/
theorem buildVersion_sum {c : LCBuildVersion} :
    (c.commandTranslations.map GeneralTranslation.bytesCount).sum =
      12 + 8 * c.buildTools.length := by
  unfold LCBuildVersion.commandTranslations LCBuildVersion.headTranslations
  induction c.buildTools with
  | nil => rfl
  | cons tool tools ih =>
    rw [List.map_append, List.sum_append] at ih ⊢
    rw [List.flatMap_cons, List.map_append, List.sum_append, List.length_cons]
    have htool : (tool.translations.map GeneralTranslation.bytesCount).sum = 8 := rfl
    omega

end Bodies

/-! ## The command -/

/-- The display list of a well-formed command, other than a build version, accounts for everything
after the type and the size. -/
theorem command_list {c : LoadCommand} (hm : c.body.Made c.type.value c.data)
    (hw : c.WellFormed) (hb : c.type.value ≠ .buildVersion) :
    ∃ ts, c.commandTranslations = .ok ts ∧
      8 + (ts.map GeneralTranslation.bytesCount).sum = c.data.count ∧
      (c.body.VariableSize →
        Shown (c.data.startIndex + 8) (c.data.startIndex + c.data.count) ts) := by
  unfold LoadCommand.WellFormed at hw
  unfold LoadCommand.commandTranslations
  cases hbody : c.body with
  | minOSVersion b =>
    simp only [hbody] at hm hw
    obtain ⟨hi, os, hos⟩ := hm
    obtain ⟨ts, hts⟩ := minOSVersion_translates (c := b) hos
    exact ⟨ts, hts, hw ▸ sum_of_shown (minOSVersion_shown hi hts), False.elim⟩
  | linkerOption b =>
    simp only [hbody] at hm hw
    obtain ⟨ts, hts⟩ := linkerOption_translates hm
    have hshown := linkerOption_shown hm hts
    exact ⟨ts, hts, sum_of_shown hshown, fun _ => hshown⟩
  | segment b =>
    simp only [hbody] at hm hw
    have hshown := segment_shown hm
    exact ⟨_, rfl, sum_of_shown hshown, fun _ => hshown⟩
  | symbolTable b =>
    simp only [hbody] at hm hw
    exact ⟨_, rfl, hw ▸ sum_of_shown (symbolTable_shown hm), False.elim⟩
  | dynamicSymbolTable b =>
    simp only [hbody] at hm hw
    exact ⟨_, rfl, hw ▸ sum_of_shown (dynamicSymbolTable_shown hm), False.elim⟩
  | dylib b =>
    simp only [hbody] at hm hw
    obtain ⟨ts, hts⟩ := dylib_translates hm
    have hshown := dylib_shown hm hw hts
    exact ⟨ts, hts, sum_of_shown hshown, fun _ => hshown⟩
  | monoString b =>
    simp only [hbody] at hm hw
    obtain ⟨ts, hts⟩ := monoString_translates hm
    have hshown := monoString_shown hm hw hts
    exact ⟨ts, hts, sum_of_shown hshown, fun _ => hshown⟩
  | uuid b =>
    simp only [hbody] at hm hw
    exact ⟨_, rfl, hw ▸ sum_of_shown (uuid_shown hm), False.elim⟩
  | sourceVersion b =>
    simp only [hbody] at hm hw
    exact ⟨_, rfl, hw ▸ sum_of_shown (sourceVersion_shown hm), False.elim⟩
  | linkedITData b =>
    simp only [hbody] at hm hw
    exact ⟨_, rfl, hw ▸ sum_of_shown (linkedITData_shown hm.1), False.elim⟩
  | main b =>
    simp only [hbody] at hm hw
    exact ⟨_, rfl, by rw [main_bytesCounts, hw], False.elim⟩
  | dyldInfo b =>
    simp only [hbody] at hm hw
    exact ⟨_, rfl, hw ▸ sum_of_shown (dyldInfo_shown hm), False.elim⟩
  | encryptionInfo b =>
    simp only [hbody] at hm hw
    exact ⟨_, rfl, hw ▸ sum_of_shown (encryptionInfo_shown hm), False.elim⟩
  | buildVersion b =>
    simp only [hbody] at hm
    exact absurd hm.1 hb
  | plain =>
    simp only [hbody] at hw

/-- The type and the size are shown where they are. -/
theorem command_head_shown {d : Data} {k : Nat} {c : LoadCommand} (h : CommandAt d k c)
    (t s : String) : Shown c.data.startIndex (c.data.startIndex + 8)
      [c.type.translation "Load Command Type" t 4 .numberEnum,
        c.size.translation "Load Command Size" s 4 .uint32] := by
  obtain ⟨type, _, htype⟩ := h.type
  rw [htype, h.size, h.data]
  simp [Shown, Nat.add_assoc]

theorem runTranslating_eq_ok {c : LoadCommand} {ts : List GeneralTranslation}
    (h : c.commandTranslations = .ok ts) :
    c.runTranslating = .ok [[c.type.translation "Load Command Type" c.type.value.name 4 .numberEnum,
      c.size.translation "Load Command Size" (intHex c.data.count) 4 .uint32] ++ ts] := by
  unfold LoadCommand.runTranslating
  rw [h]
  rfl

theorem rangesCover_of_ne {d : Data} {k : Nat} {c : LoadCommand} (h : CommandAt d k c)
    (hw : c.WellFormed) (hb : c.type.value ≠ .buildVersion) : c.RangesCover := by
  obtain ⟨ts, hts, hsum, hshown⟩ := command_list (made_of_init h.body) hw hb
  have htotal : (([[c.type.translation "Load Command Type" c.type.value.name 4 .numberEnum,
      c.size.translation "Load Command Size" (intHex c.data.count) 4 .uint32] ++
      ts] : List TranslationGroup).flatten.map GeneralTranslation.bytesCount).sum =
        c.data.count := by
    simp only [List.flatten_cons, List.flatten_nil, List.append_nil, List.cons_append,
      List.nil_append, List.map_cons, List.sum_cons, Field.translation_bytesCount]
    omega
  refine ⟨_, runTranslating_eq_ok hts, htotal, fun s hs => ?_, fun hv => ?_⟩
  · have hbounds := mem_fix_bounds hs
    rw [htotal] at hbounds
    exact hbounds
  · refine (tiledBy_of_shown (b := c.data.startIndex + c.data.count) ?_).shown
    rw [List.flatten_cons, List.flatten_nil, List.append_nil]
    exact (command_head_shown h _ _).append (hshown hv)

theorem not_rangesCover_buildVersion {c : LoadCommand} {b : LCBuildVersion}
    (hbody : c.body = .buildVersion b) (hi : LCBuildVersion.init c.data = .ok b)
    (hw : c.WellFormed) : ¬ c.RangesCover := by
  rintro ⟨gs, hgs, hsum, -, -⟩
  have hts : c.commandTranslations = .ok b.commandTranslations := by
    unfold LoadCommand.commandTranslations
    rw [hbody]
  rw [runTranslating_eq_ok hts, Except.ok.injEq] at hgs
  subst hgs
  unfold LoadCommand.WellFormed at hw
  simp only [hbody] at hw
  obtain ⟨_, hlen, -, -, -⟩ := buildVersion_shown hi
  have hlist := buildVersion_sum (c := b)
  simp only [List.flatten_cons, List.flatten_nil, List.append_nil, List.cons_append,
    List.nil_append, List.map_cons, List.sum_cons, Field.translation_bytesCount] at hsum
  omega

/-- **The ranges of a well-formed command cover it exactly when it is not a build version.** -/
theorem rangesCover_iff {d : Data} {cs : List LoadCommand} (h : loadCommands d = .ok cs)
    {c : LoadCommand} (hc : c ∈ cs) (hw : c.WellFormed) :
    c.RangesCover ↔ c.type.value ≠ .buildVersion := by
  obtain ⟨k, hat⟩ := (loadCommands_eq_ok.mp h).commandAt hc
  refine ⟨fun hcover htype => ?_, rangesCover_of_ne hat hw⟩
  have hbody := hat.body
  rw [htype] at hbody
  simp only [LoadCommandBody.init, bind_eq_ok, pure_eq_ok, Except.ok.injEq] at hbody
  obtain ⟨b, hi, hb⟩ := hbody
  exact not_rangesCover_buildVersion hb.symm hi hw hcover

/-- An `LC_LOAD_DYLIB` command with the path `/a`. -/
def sampleDylibCommand : LoadCommand where
  type := ⟨.loadDylib, ⟨0, 4⟩⟩
  size := ⟨32, ⟨4, 8⟩⟩
  data := ⟨0, [0x0c, 0, 0, 0, 32, 0, 0, 0, 24, 0, 0, 0, 2, 0, 0, 0, 0, 0, 1, 0, 0, 0, 1, 0,
    0x2f, 0x61, 0, 0, 0, 0, 0, 0]⟩
  title := "LC_LOAD_DYLIB"
  subTitle := some "a"
  body := .dylib ⟨⟨24, ⟨8, 12⟩⟩, 8, ⟨"/a", ⟨24, 32⟩⟩, ⟨2, ⟨12, 16⟩⟩, ⟨"1.0.0", ⟨16, 20⟩⟩,
    ⟨"1.0.0", ⟨20, 24⟩⟩⟩

theorem rangesCover_dylib : loadCommands sampleDylibCommand.data = .ok [sampleDylibCommand] ∧
    sampleDylibCommand.WellFormed ∧
    (sampleDylibCommand.RangesCover ↔ sampleDylibCommand.type.value ≠ .buildVersion) := by
  have hread : loadCommands sampleDylibCommand.data = .ok [sampleDylibCommand] := by
    decide +kernel
  have hwell : sampleDylibCommand.WellFormed := rfl
  exact ⟨hread, hwell, rangesCover_iff hread List.mem_cons_self hwell⟩

/-- The fields of an `LC_BUILD_VERSION` command with one tool. -/
def sampleBuildVersion : LCBuildVersion where
  platform := ⟨some .macOS, ⟨8, 12⟩⟩
  minOSVersion := ⟨"12.0.0", ⟨12, 16⟩⟩
  sdkVersion := ⟨"13.0.0", ⟨16, 20⟩⟩
  numberOfTools := ⟨1, ⟨20, 24⟩⟩
  buildTools := [⟨⟨.ld, ⟨24, 28⟩⟩, ⟨"1.0.0", ⟨28, 32⟩⟩⟩]

/-- The command itself. -/
def sampleBuildVersionCommand : LoadCommand where
  type := ⟨.buildVersion, ⟨0, 4⟩⟩
  size := ⟨32, ⟨4, 8⟩⟩
  data := ⟨0, [0x32, 0, 0, 0, 32, 0, 0, 0, 1, 0, 0, 0, 0, 0, 12, 0, 0, 0, 13, 0, 1, 0, 0, 0,
    3, 0, 0, 0, 0, 0, 1, 0]⟩
  title := "LC_BUILD_VERSION"
  subTitle := none
  body := .buildVersion sampleBuildVersion

/-- The tool's name sits at bytes 24 to 28 and is shown at bytes 20 to 24. -/
theorem buildVersion_not_covered :
    loadCommands sampleBuildVersionCommand.data = .ok [sampleBuildVersionCommand] ∧
      sampleBuildVersionCommand.WellFormed ∧ ¬ sampleBuildVersionCommand.RangesCover := by
  have hread : LCBuildVersion.init sampleBuildVersionCommand.data = .ok sampleBuildVersion := by
    decide +kernel
  have hwell : sampleBuildVersionCommand.WellFormed := rfl
  exact ⟨by decide +kernel, hwell, not_rangesCover_buildVersion rfl hread hwell⟩

end Mocha
