import Mocha.LoadCommand.LoadCommand

/-!
# The strings of load commands

A dylib command, an rpath, a dynamic linker and a dyld environment end in a string, and the word at 8
says where in the command the string begins. `LCMonoString` reads it from there. `LCDylib` takes its
length from that word, but reads it where its cursor stands, behind the fixed part. The display lists
of both classes show the string behind the fixed part.

**`string_inPlace_iff`**: the string is the one at the declared offset, shown there, iff that offset is
the size of the fixed part.
-/

namespace Mocha

open Lib Data DataShifter

/-- The size of the fixed part of a command that ends in a string. -/
def LoadCommandType.stringBase : LoadCommandType → Option Nat
  | .idDylib | .loadDylib | .loadWeakDylib | .reexportDylib | .lazyLoadDylib | .loadUpwardDylib =>
    some 24
  | .rpath | .idDynamicLinker | .loadDynamicLinker | .dyldEnvironment => some 12
  | _ => none

/-- `libPath` or `string`. -/
def LoadCommandBody.string : LoadCommandBody → Option String
  | .dylib c => some c.libPath.value
  | .monoString c => some c.string.value
  | _ => none

/-- A command of the given type and class. -/
def LoadCommandBody.command (type : LoadCommandType) (data : Data) (body : LoadCommandBody) :
    LoadCommand where
  type := ⟨type, Span.of data.startIndex 4⟩
  size := data.uint32At 4
  data := data
  title := body.title type
  subTitle := body.subTitle
  body := body

/-- The initializer of the class of `type`, on the data of the command. -/
def LoadCommand.init (type : LoadCommandType) (data : Data) : Run LoadCommand := do
  return (← LoadCommandBody.init type data).command type data

/-- The offset of the string, as the command declares it. -/
def stringOffset (d : Data) : Nat := (d.uint32At 8).value.toNat

/-- The bytes from the declared offset to the end of the command. -/
def stringData (d : Data) : Data := d.window (stringOffset d) (d.count - stringOffset d)

/-- The text is what the bytes decode to, up to blanks and NULs. -/
def DecodedFrom (text : String) (bytes : Data) : Prop :=
  ∀ s, bytes.utf8String = some s → text = s ∨ text = spaceRemoved s

/-- The command is read with the string `text`, and its last translation shows `text` with `range`. -/
def StringRead (type : LoadCommandType) (d : Data) (text : String) (range : Span) : Prop :=
  ∃ c gs shown, LoadCommand.init type d = .ok c ∧ c.body.string = some text ∧
    c.runTranslating = .ok gs ∧
    (fixTranslationDataRange d.startIndex gs).flatten.getLast? = some shown ∧
    shown.humanReadable = text ∧ shown.dataRangeInMacho = some range

/-- The string is the one at the declared offset, and its range is that of its bytes. -/
def StringInPlace (type : LoadCommandType) (d : Data) : Prop :=
  ∃ text, DecodedFrom text (stringData d) ∧
    StringRead type d text ⟨d.startIndex + stringOffset d, d.startIndex + d.count⟩

/-- The range of the last translation of a group. -/
theorem fixGroup_getLast? (t : GeneralTranslation) (ts : List GeneralTranslation) (k : Nat) :
    (fixGroup k (ts ++ [t])).1.getLast? = some { t with
      dataRangeInMacho := some (Span.of (k + (ts.map GeneralTranslation.bytesCount).sum) t.bytesCount) } := by
  have hlength := congrArg List.length (fixGroup_map (f := fun _ => ()) (fun _ _ => rfl) k (ts ++ [t]))
  simp only [List.length_map, List.length_append, List.length_singleton] at hlength
  rw [List.getLast?_eq_getElem?, hlength, Nat.add_sub_cancel, fixGroup_getElem?,
    List.getElem?_append_right (Nat.le_refl _), Nat.sub_self, List.take_left]
  rfl

section Strings

variable {type : LoadCommandType} {d : Data}

theorem StringRead.unique {text text' : String} {range range' : Span}
    (h : StringRead type d text range) (h' : StringRead type d text' range') :
    text = text' ∧ range = range' := by
  obtain ⟨c, gs, shown, hc, htext, hgs, hshown, -, hrange⟩ := h
  obtain ⟨c', gs', shown', hc', htext', hgs', hshown', -, hrange'⟩ := h'
  cases hc.symm.trans hc'
  cases hgs.symm.trans hgs'
  cases hshown.symm.trans hshown'
  exact ⟨Option.some.inj (htext.symm.trans htext'), Option.some.inj (hrange.symm.trans hrange')⟩

/-- A command whose display list ends in its string. -/
theorem stringRead_of_translations {b : LoadCommandBody} (hb : LoadCommandBody.init type d = .ok b)
    {text : String} (htext : b.string = some text) {l : List GeneralTranslation}
    {t : GeneralTranslation} (hts : (b.command type d).commandTranslations = .ok (l ++ [t]))
    (ht : t.humanReadable = text) :
    StringRead type d text (Span.of (d.startIndex + (8 + (l.map GeneralTranslation.bytesCount).sum))
      t.bytesCount) := by
  let c := b.command type d
  let head := [c.type.translation "Load Command Type" type.name 4 .numberEnum,
    c.size.translation "Load Command Size" (intHex d.count) 4 .uint32]
  have hc : LoadCommand.init type d = .ok c := by
    unfold LoadCommand.init
    rw [hb]
    rfl
  have hgs : c.runTranslating = .ok [head ++ l ++ [t]] := by
    unfold LoadCommand.runTranslating
    rw [hts, ok_bind, List.append_assoc]
    rfl
  have hsum : ((head ++ l).map GeneralTranslation.bytesCount).sum =
      8 + (l.map GeneralTranslation.bytesCount).sum := by
    rw [List.map_append, List.sum_append]
    rfl
  have hlast := fixGroup_getLast? t (head ++ l) d.startIndex
  rw [hsum, ← List.flatten_singleton (l := (fixGroup _ _).1)] at hlast
  exact ⟨c, _, _, hc, htext, hgs, hlast, ht, rfl⟩

theorem init_dylib (hbase : type.stringBase = some 24) {c : LCDylib} (hc : LCDylib.init d = .ok c) :
    LoadCommandBody.init type d = .ok (.dylib c) := by
  cases type <;> cases hbase
  all_goals simp only [LoadCommandBody.init, hc, ok_bind, pure_eq_ok]

theorem init_monoString (hbase : type.stringBase = some 12) {c : LCMonoString}
    (hc : LCMonoString.init type d = .ok c) : LoadCommandBody.init type d = .ok (.monoString c) := by
  cases type <;> cases hbase
  all_goals simp only [LoadCommandBody.init, hc, ok_bind, pure_eq_ok]

theorem monoString_translations {c : LCMonoString} {n : Nat} (hn : c.stringLength = n) :
    c.commandTranslations = .ok [c.stringOffset.hexWord "String Offset",
      c.string.translation "Content" c.string.value n .utf8String] := by
  unfold LCMonoString.commandTranslations
  rw [byteCount_eq_ok.mpr hn]
  rfl

/-- A dylib command: the bytes behind the fixed part, as many as the declared offset leaves. -/
theorem dylib_stringRead (hbase : type.stringBase = some 24) (hlow : 24 ≤ stringOffset d)
    (hlt : stringOffset d < d.count) :
    StringRead type d (((d.window 24 (d.count - stringOffset d)).utf8String.map spaceRemoved).getD
        (warning "Failed to parse dylib path. Debug me."))
      (Span.of (d.startIndex + 24) (d.count - stringOffset d)) := by
  have hb := init_dylib hbase (dylib_init_eq_ok.mpr ⟨hlow, hlt, rfl⟩)
  exact stringRead_of_translations hb rfl (l := [_, _, _, _]) rfl rfl

/-- A mono-string command: the bytes at the declared offset, shown behind the fixed part. -/
theorem monoString_stringRead (hbase : type.stringBase = some 12) (hlow : 12 ≤ stringOffset d)
    (hlt : stringOffset d < d.count) :
    StringRead type d ((stringData d).utf8String.getD
        (warning ("Failed to parse " ++ type.name ++ ". Debug me.")))
      (Span.of (d.startIndex + 12) (d.count - stringOffset d)) := by
  have hb := init_monoString hbase (monoString_init_eq_ok.mpr
    ⟨Nat.le_of_lt (Nat.lt_of_le_of_lt hlow hlt), hlt, rfl⟩)
  have hlength : (d.count : Int) - (d.uint32At 8).value.toNat = (d.count - stringOffset d : Nat) := by
    unfold stringOffset at *
    omega
  exact stringRead_of_translations hb rfl (l := [_]) (monoString_translations hlength) rfl

/-- A string read from a place that is right for the offset `base`, and shown behind `base` bytes. -/
theorem inPlace_iff_of_read {base : Nat} {text : String} (hlt : stringOffset d < d.count)
    (hread : StringRead type d text (Span.of (d.startIndex + base) (d.count - stringOffset d)))
    (htext : stringOffset d = base → DecodedFrom text (stringData d)) :
    StringInPlace type d ↔ stringOffset d = base := by
  constructor
  · rintro ⟨text', -, hread'⟩
    have hlower := congrArg Span.lower (hread.unique hread').2
    simp only [Span.of] at hlower
    omega
  · intro h
    refine ⟨text, htext h, ?_⟩
    have hspan : Span.of (d.startIndex + base) (d.count - stringOffset d) =
        ⟨d.startIndex + stringOffset d, d.startIndex + d.count⟩ := by
      simp only [Span.of, Span.mk.injEq]
      omega
    rwa [hspan] at hread

/-- **The string at the declared offset is read and shown there** iff it begins right behind the fixed
part. -/
theorem string_inPlace_iff {base : Nat} (hbase : type.stringBase = some base)
    (hlow : base ≤ stringOffset d) (hlt : stringOffset d < d.count) :
    StringInPlace type d ↔ stringOffset d = base := by
  have hcases : base = 24 ∨ base = 12 := by
    cases type <;> simp [LoadCommandType.stringBase] at hbase <;> omega
  rcases hcases with rfl | rfl
  · refine inPlace_iff_of_read hlt (dylib_stringRead hbase hlow hlt) ?_
    intro h s hs
    rw [stringData, h] at hs
    rw [h, hs]
    exact .inr rfl
  · refine inPlace_iff_of_read hlt (monoString_stringRead hbase hlow hlt) ?_
    intro _ s hs
    rw [hs]
    exact .inl rfl

end Strings

/-- A command of 28 bytes to load the library `/lib`, whose path begins at 24. -/
def plainDylib : Data := ⟨0, [0x0c, 0, 0, 0, 28, 0, 0, 0, 24, 0, 0, 0, 0, 0, 0, 0, 0, 0, 1, 0, 0, 0, 1, 0,
  0x2f, 0x6c, 0x69, 0x62]⟩

/-- A command of 32 bytes to load the library `/lib`, whose path begins at 28. -/
def shiftedDylib : Data := ⟨0, [0x0c, 0, 0, 0, 32, 0, 0, 0, 28, 0, 0, 0, 0, 0, 0, 0, 0, 0, 1, 0, 0, 0, 1, 0,
  0x78, 0x78, 0x78, 0x78, 0x2f, 0x6c, 0x69, 0x62]⟩

theorem string_inPlace_iff_plainDylib :
    StringInPlace .loadDylib plainDylib ∧ (stringData plainDylib).utf8String = some "/lib" :=
  ⟨(string_inPlace_iff rfl (by decide) (by decide)).mpr (by decide), by decide +kernel⟩

/-- The four bytes behind the fixed part are taken for the path. -/
theorem shiftedDylib_misread :
    (LCDylib.init shiftedDylib).map LCDylib.libPath = .ok ⟨"xxxx", ⟨24, 28⟩⟩ ∧
      (stringData shiftedDylib).utf8String = some "/lib" ∧
      ¬ StringInPlace .loadDylib shiftedDylib := by
  refine ⟨by decide +kernel, by decide +kernel, ?_⟩
  rintro ⟨text, -, hother⟩
  have hbase : LoadCommandType.loadDylib.stringBase = some 24 := rfl
  have hread := dylib_stringRead (d := shiftedDylib) hbase (by decide) (by decide)
  have hrange := (hread.unique hother).2
  revert hrange
  decide

end Mocha
