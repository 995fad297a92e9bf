import Mocha.LoadCommand.Ranges

/-!
# What a line of a load command says about its bytes

The commands of a fixed size are shown as a list of lines, one for each field. `LoadCommandType.cells`
is that list as a table: for each line the offset of the field in the command and how its bytes are
written. The ranges come from adding up the widths, so a line speaks of the bytes it is shown with
when the offsets in the table are those sums (`aligned`). They are for every class but `LCMain`, whose
second line shows the entry offset again, with the range of the stack size.

**`linesFollow_iff`**: in two accepted commands of the same type and length, the same bytes of a line
mean the same text, and other bytes of a number another text. The second line of `LCMain` does so
only when the stack sizes are equal exactly if the entry offsets are.
-/

namespace Mocha

open Lib DataShifter

/-! ## The table of lines -/

/-- How the bytes of a field are written. -/
inductive CellKind where
  | hexWord
  | decimalWord
  | hexQuad
  | version
  | sourceVersion
  | uuid
  deriving DecidableEq

/-- The number of bytes. -/
def CellKind.width : CellKind → Nat
  | .hexWord | .decimalWord | .version => 4
  | .hexQuad | .sourceVersion => 8
  | .uuid => 16

/-- The text for the bytes. -/
def CellKind.text : CellKind → List UInt8 → String
  | .hexWord, bytes => hex (UInt32.ofNat (leNat bytes)).toNat
  | .decimalWord, bytes => decimal (UInt32.ofNat (leNat bytes)).toNat
  | .hexQuad, bytes => hex (UInt64.ofNat (leNat bytes)).toNat
  | .version, bytes => versionString (UInt32.ofNat (leNat bytes))
  | .sourceVersion, bytes => sourceVersionString (UInt64.ofNat (leNat bytes))
  | .uuid, bytes => uuidString bytes

/-- `translationType`. -/
def CellKind.dataType : CellKind → TranslationDataType
  | .hexWord | .decimalWord => .uint32
  | .hexQuad => .uint64
  | .version | .sourceVersion => .versionString
  | .uuid => .rawData

/-- A line: its title, and the field it shows. -/
structure Cell where
  definition : String
  offset : Nat
  kind : CellKind
  deriving DecidableEq

/-- The bytes of the field in a command. -/
def Cell.bytes (c : Cell) (d : Data) : List UInt8 := (d.window c.offset c.kind.width).bytes

/-- The line for a command. -/
def Cell.translation (d : Data) (c : Cell) : GeneralTranslation :=
  (Field.mk () (Span.of (d.startIndex + c.offset) c.kind.width)).translation c.definition
    (c.kind.text (c.bytes d)) c.kind.width c.kind.dataType

/-- The lines of `LCMinOSVersion`. -/
def minOSVersionCells (os : String) : List Cell :=
  [⟨"Required min " ++ os ++ " version", 8, .version⟩,
   ⟨"Required min " ++ os ++ " SDK version", 12, .version⟩]

/-- The lines of a command of a fixed size, without its type and its size. -/
def LoadCommandType.cells : LoadCommandType → List Cell
  | .iOSMinVersion => minOSVersionCells "iOS"
  | .macOSMinVersion => minOSVersionCells "macOS"
  | .tvOSMinVersion => minOSVersionCells "tvOS"
  | .watchOSMinVersion => minOSVersionCells "watchOS"
  | .sourceVersion => [⟨"Source Version", 8, .sourceVersion⟩]
  | .uuid => [⟨"UUID", 8, .uuid⟩]
  | .main => [⟨"Entry Offset (relative to __TEXT)", 8, .hexQuad⟩,
     ⟨"Entry Offset (relative to __TEXT)", 8, .hexQuad⟩]
  | .symbolTable => [⟨"Symbol table offset", 8, .hexWord⟩, ⟨"Number of entries", 12, .decimalWord⟩,
     ⟨"String table offset", 16, .hexWord⟩, ⟨"Size of string table", 20, .hexWord⟩]
  | .dynamicSymbolTable => [⟨"Start Index of Local Symbols ", 8, .decimalWord⟩,
     ⟨"Number of Local Symbols ", 12, .decimalWord⟩,
     ⟨"Start Index of External Defined Symbols ", 16, .decimalWord⟩,
     ⟨"Number of External Defined Symbols ", 20, .decimalWord⟩,
     ⟨"Start Index of Undefined Symbols ", 24, .decimalWord⟩,
     ⟨"Number of Undefined Symbols ", 28, .decimalWord⟩,
     ⟨"file offset to table of contents ", 32, .hexWord⟩,
     ⟨"number of entries in table of contents ", 36, .decimalWord⟩,
     ⟨"file offset to module table ", 40, .hexWord⟩,
     ⟨"number of module table entries ", 44, .decimalWord⟩,
     ⟨"offset to referenced symbol table ", 48, .hexWord⟩,
     ⟨"number of referenced symbol table entries ", 52, .decimalWord⟩,
     ⟨"file offset to the indirect symbol table ", 56, .hexWord⟩,
     ⟨"number of indirect symbol table entries ", 60, .decimalWord⟩,
     ⟨"offset to external relocation entries ", 64, .hexWord⟩,
     ⟨"number of external relocation entries ", 68, .decimalWord⟩,
     ⟨"offset to local relocation entries ", 72, .hexWord⟩,
     ⟨"number of local relocation entries ", 76, .decimalWord⟩]
  | .dyldInfo | .dyldInfoOnly => [⟨"Rebase Info File Offset", 8, .hexWord⟩,
     ⟨"Rebase Info Size", 12, .hexWord⟩, ⟨"Binding Info File Offset", 16, .hexWord⟩,
     ⟨"Binding Info Size", 20, .hexWord⟩, ⟨"Weak Binding Info File Offset", 24, .hexWord⟩,
     ⟨"Weak Binding Info Size", 28, .hexWord⟩, ⟨"Lazy Binding Info File Offset", 32, .hexWord⟩,
     ⟨"Lazy Binding Info Size", 36, .hexWord⟩, ⟨"Export Info File Offset", 40, .hexWord⟩,
     ⟨"Export Info Size", 44, .hexWord⟩]
  | .encryptionInfo => [⟨"Crypto File Offset", 8, .hexWord⟩, ⟨"Crypto File Size", 12, .hexWord⟩,
     ⟨"Crypto ID", 16, .decimalWord⟩]
  | .encryptionInfo64 => [⟨"Crypto File Offset", 8, .hexWord⟩, ⟨"Crypto File Size", 12, .hexWord⟩,
     ⟨"Crypto ID", 16, .decimalWord⟩, ⟨"Crypto Pad", 20, .decimalWord⟩]
  | .dataInCode | .codeSignature | .functionStarts | .segmentSplitInfo | .dylibCodeSigDRs
  | .linkerOptimizationHint | .dyldExportsTrie | .dyldChainedFixups =>
    [⟨"File Offset", 8, .hexWord⟩, ⟨"Size", 12, .hexWord⟩]
  | _ => []

/-- The nine classes of a fixed size. -/
def LoadCommandBody.FixedSize : LoadCommandBody → Bool
  | .main _ | .uuid _ | .sourceVersion _ | .minOSVersion _ | .symbolTable _ | .dynamicSymbolTable _
  | .dyldInfo _ | .encryptionInfo _ | .linkedITData _ => true
  | _ => false

/-- **The display lists are the table.** -/
theorem commandTranslations_eq_cells {c : LoadCommand}
    (h : LoadCommandBody.init c.type.value c.data = .ok c.body) (hfixed : c.body.FixedSize = true) :
    c.commandTranslations = .ok (c.type.value.cells.map (Cell.translation c.data)) := by
  obtain ⟨⟨type, span⟩, size, d, title, subTitle, b⟩ := c
  simp only at h hfixed
  unfold LoadCommand.commandTranslations
  cases type <;>
    simp only [LoadCommandBody.init, bind_eq_ok, pure_eq_ok, Except.ok.injEq] at h <;>
    obtain ⟨b, hb, rfl⟩ := h
  case iOSMinVersion | macOSMinVersion | tvOSMinVersion | watchOSMinVersion =>
    obtain ⟨-, rfl⟩ := minOSVersion_init_eq_ok.mp hb
    rfl
  case sourceVersion =>
    obtain ⟨-, rfl⟩ := sourceVersion_init_eq_ok.mp hb
    rfl
  case uuid =>
    obtain ⟨-, rfl⟩ := uuid_init_eq_ok.mp hb
    rfl
  case main =>
    obtain ⟨-, rfl⟩ := main_init_eq_ok.mp hb
    rfl
  case symbolTable =>
    obtain ⟨-, rfl⟩ := symbolTable_init_eq_ok.mp hb
    rfl
  case dynamicSymbolTable =>
    obtain ⟨-, rfl⟩ := dynamicSymbolTable_init_eq_ok.mp hb
    rfl
  case dyldInfo | dyldInfoOnly =>
    obtain ⟨-, rfl⟩ := dyldInfo_init_eq_ok.mp hb
    rfl
  case encryptionInfo | encryptionInfo64 =>
    obtain ⟨-, rfl⟩ := encryptionInfo_init_eq_ok.mp hb
    rfl
  case dataInCode | codeSignature | functionStarts | segmentSplitInfo | dylibCodeSigDRs |
      linkerOptimizationHint | dyldExportsTrie | dyldChainedFixups =>
    obtain ⟨-, rfl⟩ := linkedITData_init_eq_ok.mp hb
    rfl
  all_goals cases hfixed

/-! ## Offsets and widths -/

/-- Every field begins where the ones before it, from `start` on, end. -/
def aligned : Nat → List Cell → Bool
  | _, [] => true
  | start, c :: cs => c.offset == start && aligned (start + c.kind.width) cs

/-- Where the range of the `k`-th line begins. -/
def linePosition (cells : List Cell) (k : Nat) : Nat :=
  8 + ((cells.take k).map fun c => c.kind.width).sum

theorem cells_aligned {type : LoadCommandType} (h : type ≠ .main) : aligned 8 type.cells = true := by
  cases type <;> first | rfl | exact absurd rfl h

theorem offset_of_aligned : ∀ {cells : List Cell} {start k : Nat} {c : Cell},
    aligned start cells = true → cells[k]? = some c →
      c.offset = start + ((cells.take k).map fun c => c.kind.width).sum
  | [], _, _, _, _, hc => by cases hc
  | c :: cs, start, 0, _, h, hc => by
    cases hc
    simp only [aligned, Bool.and_eq_true, beq_iff_eq] at h
    simpa using h.1
  | c :: cs, start, k + 1, _, h, hc => by
    simp only [aligned, Bool.and_eq_true] at h
    rw [offset_of_aligned h.2 hc, List.take_succ_cons, List.map_cons, List.sum_cons, Nat.add_assoc]

/-- The lines that print a whole number. -/
def GeneralTranslation.IsNumber (t : GeneralTranslation) : Prop :=
  t.translationType = .uint32 ∨ t.translationType = .uint64

theorem leNat_inj {as bs : List UInt8} (hlength : as.length = bs.length) (h : leNat as = leNat bs) :
    as = bs := by
  rw [← leBytes_leNat as, hlength, h, leBytes_leNat]

theorem uint32_leNat {bs : List UInt8} (h : bs.length ≤ 4) :
    (UInt32.ofNat (leNat bs)).toNat = leNat bs :=
  UInt32.toNat_ofNat_of_lt (Nat.lt_of_lt_of_le (leNat_lt bs) (Nat.pow_le_pow_right (by decide) h))

theorem uint64_leNat {bs : List UInt8} (h : bs.length ≤ 8) :
    (UInt64.ofNat (leNat bs)).toNat = leNat bs :=
  UInt64.toNat_ofNat_of_lt (Nat.lt_of_lt_of_le (leNat_lt bs) (Nat.pow_le_pow_right (by decide) h))

/-- Numbers of other bytes have another text. -/
theorem CellKind.text_injective {kind : CellKind}
    (hkind : kind.dataType = .uint32 ∨ kind.dataType = .uint64) {as bs : List UInt8}
    (hlength : as.length = bs.length) (has : as.length ≤ kind.width)
    (h : kind.text as = kind.text bs) : as = bs := by
  have hbs : bs.length ≤ kind.width := hlength ▸ has
  refine leNat_inj hlength ?_
  cases kind with
  | hexWord =>
    have hnumber := hex_injective h
    rwa [uint32_leNat has, uint32_leNat hbs] at hnumber
  | decimalWord =>
    have hnumber := decimal_injective h
    rwa [uint32_leNat has, uint32_leNat hbs] at hnumber
  | hexQuad =>
    have hnumber := hex_injective h
    rwa [uint64_leNat has, uint64_leNat hbs] at hnumber
  | version | sourceVersion | uuid => simp [CellKind.dataType] at hkind

/-! ## Two commands -/

/-- The lines of a command, with their ranges. -/
def LoadCommand.lines (c : LoadCommand) : Run (List GeneralTranslation) := do
  let groups ← c.runTranslating
  return (fixTranslationDataRange c.data.startIndex groups).flatten

/-- The bytes of a command in the range of a line. -/
def GeneralTranslation.highlighted (t : GeneralTranslation) (d : Data) : List UInt8 :=
  match t.dataRangeInMacho with
  | none => []
  | some r => (d.window (r.lower - d.startIndex) r.width).bytes

/-- The text of the line goes with the bytes in its range: the same bytes mean the same text, and
other bytes of a number another one. -/
def LineFollows (d d' : Data) (t t' : GeneralTranslation) : Prop :=
  (t.highlighted d = t'.highlighted d' → t.humanReadable = t'.humanReadable) ∧
    (t.IsNumber → t.highlighted d ≠ t'.highlighted d' → t.humanReadable ≠ t'.humanReadable)

/-- Both commands have lines, and the text of the `k`-th goes with its bytes. -/
def LinesFollow (c c' : LoadCommand) (k : Nat) : Prop :=
  ∃ ls ls', c.lines = .ok ls ∧ c'.lines = .ok ls' ∧
    ∀ t t', ls[k]? = some t → ls'[k]? = some t' → LineFollows c.data c'.data t t'

/-- The type and the size of a command, as its first two lines show them. -/
def LoadCommand.head (c : LoadCommand) : List GeneralTranslation :=
  [c.type.translation "Load Command Type" c.type.value.name 4 .numberEnum,
   c.size.translation "Load Command Size" (intHex c.data.count) 4 .uint32]

/-- The lines of a command of a fixed size. -/
theorem lines_eq {c : LoadCommand} (h : LoadCommandBody.init c.type.value c.data = .ok c.body)
    (hfixed : c.body.FixedSize = true) :
    c.lines = .ok (fixGroup c.data.startIndex
      (c.head ++ c.type.value.cells.map (Cell.translation c.data))).1 := by
  unfold LoadCommand.lines
  rw [runTranslating_eq_ok (commandTranslations_eq_cells h hfixed), ok_bind, fixTranslationDataRange,
    fixTranslationDataRange, List.flatten_singleton]
  rfl

/-- The line of a field, shown with the range at `p`. -/
def Cell.lineAt (d : Data) (p : Nat) (cell : Cell) : GeneralTranslation :=
  { cell.translation d with
    dataRangeInMacho := some (Span.of (d.startIndex + p) cell.kind.width) }

/-- A line behind the type and the size. -/
theorem lines_getElem? (c : LoadCommand) (k : Nat) :
    (fixGroup c.data.startIndex (c.head ++ c.type.value.cells.map (Cell.translation c.data))).1[k + 2]? =
      c.type.value.cells[k]?.map (Cell.lineAt c.data (linePosition c.type.value.cells k)) := by
  have htake : ((c.head ++ c.type.value.cells.map (Cell.translation c.data)).take (k + 2)).map
      GeneralTranslation.bytesCount = [4, 4] ++ (c.type.value.cells.take k).map fun c => c.kind.width := by
    simp [LoadCommand.head, Cell.translation, List.map_take, Function.comp_def]
  rw [fixGroup_getElem?, htake, List.sum_append]
  change ((c.type.value.cells.map (Cell.translation c.data))[k]?.map _) = _
  rw [List.getElem?_map, Option.map_map]
  rfl

section Commands

variable {d d' : Data} {c c' : LoadCommand}

theorem commandsFrom_single {k : Nat} (h : CommandsFrom d k [c]) :
    CommandAt d k c ∧ k + c.size.value.toNat = d.count := by
  cases h with
  | cons hc hrest =>
    refine ⟨hc, ?_⟩
    generalize k + c.size.value.toNat = n at hrest
    cases hrest
    rfl

/-- A buffer that is one command. -/
theorem command_of_loadCommands (h : loadCommands d = .ok [c]) :
    CommandAt d 0 c ∧ c.data = d ∧ leNat (d.window 4 4).bytes = d.count := by
  obtain ⟨hc, hsize⟩ := commandsFrom_single (loadCommands_eq_ok.mp h)
  rw [Nat.zero_add] at hsize
  have hdata := hc.data
  rw [hsize, Data.window_all] at hdata
  refine ⟨hc, hdata, ?_⟩
  rw [← hsize, hc.size]
  exact (uint32_leNat (List.length_take_le _ _)).symm

/-- The text goes with the bytes, for a field shown with the range at `p`. -/
def Cell.Follows (cell : Cell) (p : Nat) (d d' : Data) : Prop :=
  let bytes (d : Data) := (d.window p cell.kind.width).bytes
  let text (d : Data) := cell.kind.text (cell.bytes d)
  (bytes d = bytes d' → text d = text d') ∧
    ((cell.kind.dataType = .uint32 ∨ cell.kind.dataType = .uint64) → bytes d ≠ bytes d' →
      text d ≠ text d')

/-- A field shown with the range of its own bytes. -/
theorem Cell.follows_self (cell : Cell) (h : d.count = d'.count) : cell.Follows cell.offset d d' := by
  refine ⟨fun hbytes => congrArg cell.kind.text hbytes, fun hnumber hne htext => hne ?_⟩
  refine CellKind.text_injective hnumber ?_ (List.length_take_le _ _) htext
  unfold Data.count at h
  simp [Data.window, h]

theorem Cell.lineAt_highlighted (d : Data) (p : Nat) (cell : Cell) :
    (cell.lineAt d p).highlighted d = (d.window p cell.kind.width).bytes := by
  simp [Cell.lineAt, GeneralTranslation.highlighted]

theorem Cell.lineFollows_iff (d d' : Data) (p : Nat) (cell : Cell) :
    LineFollows d d' (cell.lineAt d p) (cell.lineAt d' p) ↔ cell.Follows p d d' := by
  unfold LineFollows
  rw [Cell.lineAt_highlighted, Cell.lineAt_highlighted]
  exact Iff.rfl

/-- The lines behind the type and the size. -/
theorem linesFollow_cell (hc : LoadCommandBody.init c.type.value c.data = .ok c.body)
    (hc' : LoadCommandBody.init c'.type.value c'.data = .ok c'.body)
    (hfixed : c.body.FixedSize = true) (hfixed' : c'.body.FixedSize = true)
    (htype : c'.type.value = c.type.value) (k : Nat) :
    LinesFollow c c' (k + 2) ↔ ∀ cell, c.type.value.cells[k]? = some cell →
      cell.Follows (linePosition c.type.value.cells k) c.data c'.data := by
  have hline := lines_getElem? c k
  have hline' := lines_getElem? c' k
  unfold LinesFollow
  rw [lines_eq hc hfixed, lines_eq hc' hfixed']
  rw [htype] at hline' ⊢
  simp only [Except.ok.injEq, exists_and_left, exists_eq_left', hline, hline']
  cases c.type.value.cells[k]? with
  | none => simp
  | some cell =>
    simp only [Option.map_some, Option.some.injEq, forall_eq', ← Cell.lineFollows_iff]
    refine ⟨fun h => h _ _ rfl rfl, ?_⟩
    rintro h _ _ rfl rfl
    exact h

/-- The type and the size: both commands have the same. -/
theorem linesFollow_head (hc : LoadCommandBody.init c.type.value c.data = .ok c.body)
    (hc' : LoadCommandBody.init c'.type.value c'.data = .ok c'.body)
    (hfixed : c.body.FixedSize = true) (hfixed' : c'.body.FixedSize = true)
    (htype : c'.type.value = c.type.value) (hcount : c'.data.count = c.data.count)
    (hsize : (c.data.window 4 4).bytes = (c'.data.window 4 4).bytes) {k : Nat} (hk : k < 2) :
    LinesFollow c c' k := by
  refine ⟨_, _, lines_eq hc hfixed, lines_eq hc' hfixed', ?_⟩
  intro t t' ht ht'
  rw [fixGroup_getElem?] at ht ht'
  obtain rfl | rfl : k = 0 ∨ k = 1 := by omega
  · cases ht
    cases ht'
    refine ⟨fun _ => congrArg LoadCommandType.name htype.symm, ?_⟩
    rintro (hnumber | hnumber) <;> cases hnumber
  · cases ht
    cases ht'
    have htext : intHex c.data.count = intHex c'.data.count := by rw [hcount]
    refine ⟨fun _ => htext, fun _ hne => absurd ?_ hne⟩
    simpa [GeneralTranslation.highlighted, LoadCommand.head] using hsize

/-- The second line of an `LCMain`: the text of the entry offset with the range of the stack size. -/
theorem mainLine_follows_iff (hcount : d.count = d'.count) :
    Cell.Follows ⟨"Entry Offset (relative to __TEXT)", 8, .hexQuad⟩ 16 d d' ↔
      ((d.window 16 8).bytes = (d'.window 16 8).bytes ↔
        (d.window 8 8).bytes = (d'.window 8 8).bytes) := by
  have htext : CellKind.hexQuad.text (d.window 8 8).bytes = CellKind.hexQuad.text (d'.window 8 8).bytes ↔
      (d.window 8 8).bytes = (d'.window 8 8).bytes := by
    refine ⟨fun h => CellKind.text_injective (.inr rfl) ?_ (List.length_take_le _ _) h, fun h => by rw [h]⟩
    unfold Data.count at hcount
    simp [Data.window, hcount]
  unfold Cell.Follows
  change ((d.window 16 8).bytes = (d'.window 16 8).bytes →
      CellKind.hexQuad.text (d.window 8 8).bytes = CellKind.hexQuad.text (d'.window 8 8).bytes) ∧
    (_ → (d.window 16 8).bytes ≠ (d'.window 16 8).bytes →
      CellKind.hexQuad.text (d.window 8 8).bytes ≠ CellKind.hexQuad.text (d'.window 8 8).bytes) ↔ _
  rw [ne_eq, ne_eq, htext]
  constructor
  · rintro ⟨hsame, hother⟩
    exact ⟨hsame, fun hentry => not_not.mp fun hne => hother (.inr rfl) hne hentry⟩
  · intro h
    exact ⟨h.mp, fun _ hne hentry => hne (h.mpr hentry)⟩

theorem fixedSize_eq {type : LoadCommandType} {b : LoadCommandBody}
    (h : LoadCommandBody.init type d = .ok b) : b.FixedSize = !type.cells.isEmpty := by
  cases type <;>
    simp only [LoadCommandBody.init, bind_eq_ok, pure_eq_ok, Except.ok.injEq] at h <;>
    obtain ⟨c, -, rfl⟩ := h <;> rfl

/-- **The text of a line goes with the bytes it is shown with**, but for the second line of an
`LCMain`: there the stack sizes have to be equal exactly if the entry offsets are. -/
theorem linesFollow_iff (h : loadCommands d = .ok [c]) (h' : loadCommands d' = .ok [c'])
    (hfixed : c.body.FixedSize = true) (htype : c'.type.value = c.type.value)
    (hcount : d'.count = d.count) (k : Nat) :
    LinesFollow c c' k ↔ (c.type.value = .main → k = 3 →
      ((d.window 16 8).bytes = (d'.window 16 8).bytes ↔
        (d.window 8 8).bytes = (d'.window 8 8).bytes)) := by
  obtain ⟨hat, rfl, hsize⟩ := command_of_loadCommands h
  obtain ⟨hat', rfl, hsize'⟩ := command_of_loadCommands h'
  have hfixed' : c'.body.FixedSize = true := by
    rw [fixedSize_eq hat'.body, htype, ← fixedSize_eq hat.body, hfixed]
  by_cases hk : k < 2
  · have hwords : (c.data.window 4 4).bytes = (c'.data.window 4 4).bytes := by
      have hlength : c'.data.bytes.length = c.data.bytes.length := hcount
      refine leNat_inj (by simp [Data.window, hlength]) ?_
      rw [hsize, hsize', hcount]
    exact iff_of_true (linesFollow_head hat.body hat'.body hfixed hfixed' htype hcount hwords hk)
      (by omega)
  · obtain ⟨n, rfl⟩ := Nat.exists_eq_add_of_le' (Nat.le_of_not_lt hk)
    rw [linesFollow_cell hat.body hat'.body hfixed hfixed' htype]
    by_cases hmain : c.type.value = .main
    · rw [hmain]
      rcases n with _ | _ | n
      · refine iff_of_true ?_ (by omega)
        intro cell hcell
        cases hcell
        exact Cell.follows_self _ hcount.symm
      · rw [← mainLine_follows_iff hcount.symm]
        refine ⟨fun h _ _ => h _ rfl, ?_⟩
        intro h cell hcell
        cases hcell
        exact h rfl rfl
      · refine iff_of_true ?_ (by omega)
        intro cell hcell
        cases hcell
    · refine iff_of_true ?_ fun h => absurd h hmain
      intro cell hcell
      have hoffset := offset_of_aligned (cells_aligned hmain) hcell
      rw [linePosition, ← hoffset]
      exact Cell.follows_self cell hcount.symm

end Commands

/-- An `LC_MAIN` command with the given entry offset and stack size, both below 256. -/
def mainCommand (entryOffset stackSize : UInt8) : LoadCommand where
  type := ⟨.main, ⟨0, 4⟩⟩
  size := ⟨24, ⟨4, 8⟩⟩
  data := ⟨0, [0x28, 0, 0, 0x80, 24, 0, 0, 0, entryOffset, 0, 0, 0, 0, 0, 0, 0,
    stackSize, 0, 0, 0, 0, 0, 0, 0]⟩
  title := "LC_MAIN"
  subTitle := none
  body := .main ⟨⟨entryOffset.toUInt64, ⟨8, 16⟩⟩, ⟨stackSize.toUInt64, ⟨16, 24⟩⟩⟩

theorem mainCommand_read :
    loadCommands (mainCommand 1 0).data = .ok [mainCommand 1 0] ∧
      loadCommands (mainCommand 2 0).data = .ok [mainCommand 2 0] := by
  decide +kernel

theorem linesFollow_iff_mainCommand :
    LinesFollow (mainCommand 1 0) (mainCommand 2 0) 2 ∧
      (mainCommand 1 0).data.bytes ≠ (mainCommand 2 0).data.bytes :=
  ⟨(linesFollow_iff mainCommand_read.1 mainCommand_read.2 rfl rfl rfl 2).mpr (by decide), by decide⟩

/-- Two commands with the same stack size have other texts in the line with its range. -/
theorem mainCommand_not_follows :
    loadCommands (mainCommand 1 0).data = .ok [mainCommand 1 0] ∧
      loadCommands (mainCommand 2 0).data = .ok [mainCommand 2 0] ∧
      ((mainCommand 1 0).data.window 16 8).bytes = ((mainCommand 2 0).data.window 16 8).bytes ∧
      (mainCommand 1 0).lines.map (fun ls => ls[3]?.map fun t => (t.dataRangeInMacho, t.humanReadable)) =
        .ok (some (some ⟨16, 24⟩, "0x1")) ∧
      (mainCommand 2 0).lines.map (fun ls => ls[3]?.map fun t => (t.dataRangeInMacho, t.humanReadable)) =
        .ok (some (some ⟨16, 24⟩, "0x2")) ∧
      ¬ LinesFollow (mainCommand 1 0) (mainCommand 2 0) 3 := by
  refine ⟨mainCommand_read.1, mainCommand_read.2, by decide, by decide +kernel, by decide +kernel, ?_⟩
  have hbody : LoadCommandBody.init (mainCommand 1 0).type.value (mainCommand 1 0).data =
      .ok (mainCommand 1 0).body := by decide +kernel
  have hbody' : LoadCommandBody.init (mainCommand 2 0).type.value (mainCommand 2 0).data =
      .ok (mainCommand 2 0).body := by decide +kernel
  rw [linesFollow_cell hbody hbody' rfl rfl rfl 1]
  intro h
  have hcount : (mainCommand 1 0).data.count = (mainCommand 2 0).data.count := rfl
  have hsame := ((mainLine_follows_iff hcount).mp (h _ rfl)).mp (by decide)
  revert hsame
  decide

end Mocha
