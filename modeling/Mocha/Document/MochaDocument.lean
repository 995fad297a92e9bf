import Mocha.Document.UnixArchive

/-!
# Fat files and documents (`FatBinary.swift`, `MochaDocument.swift`)

`MochaDocument.init` tries an archive, a fat file and a thin file in turn. A fat file is a table of
slices, each opened as a document of its own: the two initializers call each other. `fuel` bounds the
depth of that recursion, and the turns of the archive loops in it.

`numberOfArchs_eq_ok` and `subFileData_eq_ok` say which table and which slices `FatBinary.init` can
read, and where it looks for them.
-/

namespace Mocha

open Lib Data

/-- `bigEndian` of a number loaded on a little-endian host: its bytes, in the other order. -/
def bigEndian (n : UInt32) : UInt32 := UInt32.ofNat (beNat (leBytes 4 n.toNat))

/-- `FatArch`. -/
structure FatArch where
  cpu : CPUType
  cpuSub : CPUSubtype
  objectFileOffset : UInt32
  objectFileSize : UInt32
  align : UInt32
  deriving DecidableEq

/-- `FatArch(with:)`. -/
def FatArch.init (data : Data) : Run FatArch := do
  let cpu ← (← data.subSequence 0 4).uint32
  let cpuSub ← (← data.subSequence 4 4).uint32
  let objectFileOffset ← (← data.subSequence 8 4).uint32
  let objectFileSize ← (← data.subSequence 12 4).uint32
  let align ← (← data.subSequence 16 4).uint32
  let cpuType := CPUType.init (bigEndian cpu.value)
  return {
    cpu := cpuType
    cpuSub := CPUSubtype.init (bigEndian cpuSub.value) cpuType
    objectFileOffset := bigEndian objectFileOffset.value
    objectFileSize := bigEndian objectFileSize.value
    align := bigEndian align.value }

/-- `FatBinary`. -/
structure FatBinary where
  machoMetaDatas : List MachoMetaData
  deriving DecidableEq

/-- `MochaDocument`. -/
structure MochaDocument where
  fileName : String
  fileSize : Nat
  machoMetaDatas : List MachoMetaData
  deriving DecidableEq

namespace FatBinary

/-- `magic`. -/
def magic : List UInt8 := [0xca, 0xfe, 0xba, 0xbe]

/-- `numberOfArchs`. -/
def numberOfArchs (fileData : Data) : Run Nat := do
  let number ← (← fileData.subSequence 4 4).uint32
  return (bigEndian number.value).toNat

/-- `Data(subFileDataRaw)` of the arch at an index. -/
def subFileData (fileData : Data) (index : Nat) : Run Data := do
  let fatArchData ← fileData.subSequence (8 + index * 20) 20
  let fatArch ← FatArch.init fatArchData
  let subFileDataRaw ← fileData.subSequence fatArch.objectFileOffset.toNat
    fatArch.objectFileSize.toNat
  return subFileDataRaw.rebased

/-- The loop `for index in 0..<numberOfArchs`, from `index` on with `left` turns to go. -/
def archLoop (openFile : String → Data → Opening MochaDocument) (fileData : Data)
    (machoFileName : String) : (left index : Nat) → Opening (List MachoMetaData)
  | 0, _ => .ok []
  | left + 1, index => do
    let subFile ← ofRun (subFileData fileData index)
    let document ← openFile machoFileName subFile
    let rest ← archLoop openFile fileData machoFileName left (index + 1)
    return document.machoMetaDatas ++ rest

/-- `FatBinary(with:machoFileName:)`, where `openFile` is `MochaDocument(fileName:fileData:)`. -/
def init (openFile : String → Data → Opening MochaDocument) (fileData : Data)
    (machoFileName : String) : Opening FatBinary :=
  if fileData.starts magic then do
    let number ← ofRun (numberOfArchs fileData)
    return ⟨← archLoop openFile fileData machoFileName number 0⟩
  else .error (.thrown .fatBinaryError)

end FatBinary

/-- `MochaDocument(fileName:fileData:)`. -/
def MochaDocument.init (g : Segmentation) : Nat → String → Data → Opening MochaDocument
  | 0, _, _ => .error .unfinished
  | fuel + 1, fileName, fileData => do
    match ← attempt (UnixArchive.init g fuel fileData) with
    | some unixArchive => return ⟨fileName, fileData.count, unixArchive.machoMetaDatas⟩
    | none =>
      match ← attempt (FatBinary.init (MochaDocument.init g fuel) fileData fileName) with
      | some fatBinary => return ⟨fileName, fileData.count, fatBinary.machoMetaDatas⟩
      | none =>
        match ← attempt (MachoMetaData.init fileName fileData) with
        | some unixBinary => return ⟨fileName, fileData.count, [unixBinary]⟩
        | none => .error (.thrown .mochaDocumentError)

/-! ## The table of a fat file -/

/-- The big-endian word at offset `k`. -/
def Data.bigWordAt (d : Data) (k : Nat) : Nat := beNat (d.window k 4).bytes

theorem bigEndian_uint32At {d : Data} {k : Nat} (h : k + 4 ≤ d.count) :
    (bigEndian (d.uint32At k).value).toNat = d.bigWordAt k := by
  have hlength : (d.window k 4).bytes.length = 4 := d.window_count h
  have hvalue : (d.uint32At k).value.toNat = leNat (d.window k 4).bytes := by
    have hlt := leNat_lt (d.window k 4).bytes
    rw [hlength] at hlt
    exact Nat.mod_eq_of_lt hlt
  have hbytes := leBytes_leNat (d.window k 4).bytes
  rw [hlength] at hbytes
  have hlt := beNat_lt (d.window k 4).bytes
  rw [hlength] at hlt
  rw [bigEndian, hvalue, hbytes, UInt32.toNat_ofNat']
  exact Nat.mod_eq_of_lt hlt

theorem numberOfArchs_eq_ok {d : Data} {n : Nat} :
    FatBinary.numberOfArchs d = .ok n ↔ 8 ≤ d.count ∧ n = d.bigWordAt 4 := by
  unfold FatBinary.numberOfArchs
  rw [subSequence_uint32_bind]
  refine and_congr_right fun hle => ?_
  rw [pure_eq_ok, Except.ok.injEq, bigEndian_uint32At hle, eq_comm]

/-- The arch an entry of 20 bytes describes. -/
def FatArch.layout (d : Data) : FatArch where
  cpu := CPUType.init (bigEndian (d.uint32At 0).value)
  cpuSub := CPUSubtype.init (bigEndian (d.uint32At 4).value)
    (CPUType.init (bigEndian (d.uint32At 0).value))
  objectFileOffset := bigEndian (d.uint32At 8).value
  objectFileSize := bigEndian (d.uint32At 12).value
  align := bigEndian (d.uint32At 16).value

theorem fatArch_init {d : Data} (h : d.count = 20) : FatArch.init d = .ok (FatArch.layout d) := by
  unfold FatArch.init
  simp only [subSequence_uint32_bind, h]
  exact ⟨by decide, by decide, by decide, by decide, by decide, rfl⟩

/-- The offset and the size of a slice, as its entry at `k` has them. -/
theorem fatArch_layout_window {d : Data} {k : Nat} (hfit : k + 20 ≤ d.count) :
    (FatArch.layout (d.window k 20)).objectFileOffset.toNat = d.bigWordAt (k + 8) ∧
      (FatArch.layout (d.window k 20)).objectFileSize.toNat = d.bigWordAt (k + 12) := by
  have hcount := d.window_count hfit
  have hword : ∀ i, i + 4 ≤ 20 →
      (bigEndian ((d.window k 20).uint32At i).value).toNat = d.bigWordAt (k + i) := by
    intro i hi
    rw [bigEndian_uint32At (by omega), Data.bigWordAt, Data.window_window d hi]
    rfl
  exact ⟨hword 8 (by decide), hword 12 (by decide)⟩

/-- **The slice of an arch**: its entry and the slice itself lie in the file, and the slice is not
empty. -/
theorem subFileData_eq_ok {d e : Data} {index : Nat} :
    FatBinary.subFileData d index = .ok e ↔
      28 + index * 20 ≤ d.count ∧ 0 < d.bigWordAt (20 + index * 20) ∧
      d.bigWordAt (16 + index * 20) + d.bigWordAt (20 + index * 20) ≤ d.count ∧
      e = (d.window (d.bigWordAt (16 + index * 20)) (d.bigWordAt (20 + index * 20))).rebased := by
  have hoffset : 8 + index * 20 + 8 = 16 + index * 20 := by omega
  have hsize : 8 + index * 20 + 12 = 20 + index * 20 := by omega
  unfold FatBinary.subFileData
  simp only [bind_eq_ok, subSequence_eq_ok]
  constructor
  · rintro ⟨_, ⟨_, hfit, rfl⟩, arch, harch, raw, ⟨hpos, hin, rfl⟩, h⟩
    cases h
    rw [fatArch_init (d.window_count hfit)] at harch
    cases harch
    obtain ⟨ho, hs⟩ := fatArch_layout_window hfit
    rw [hoffset] at ho
    rw [hsize] at hs
    rw [hs] at hpos
    rw [ho, hs] at hin
    exact ⟨by omega, hpos, hin, by rw [ho, hs]⟩
  · rintro ⟨hfit, hpos, hin, rfl⟩
    have hentry : 8 + index * 20 + 20 ≤ d.count := by omega
    obtain ⟨ho, hs⟩ := fatArch_layout_window hentry
    rw [hoffset] at ho
    rw [hsize] at hs
    refine ⟨_, ⟨by decide, hentry, rfl⟩, _, fatArch_init (d.window_count hentry), _,
      ⟨by rwa [hs], by rwa [ho, hs], rfl⟩, ?_⟩
    rw [ho, hs]
    rfl

end Mocha
