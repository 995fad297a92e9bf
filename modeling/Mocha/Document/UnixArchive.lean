import Mocha.Document.MachoMetaData
import Mocha.Helpers.DataShifter
import Mocha.Helpers.Text
import Mocha.Lib.Walk

/-!
# Unix archives (`UnixArchive.swift`)

An archive is its magic followed by members, each a 60-byte header of text fields and its content. A
file name that starts with `#1/` is a number: the length of the real name, which stands before the
data and is counted in the size of the content.

The sizes are signed, and `skip` over a `__.SYMDEF` member is not checked: a negative size moves the
cursor back, so the loop over the members is a `Walk`. `UnixArchive.init` makes at most `fuel` of
its turns. The differences and sums of sizes stay within 64 bits, as the fields have 10 and 13
digits.
-/

namespace Mocha

open Lib Data DataShifter

/-- `UnixArchiveFileHeader`. -/
structure UnixArchiveFileHeader where
  fileID : String
  modificationTS : Option String
  ownerID : Option String
  groupID : Option String
  fileMode : Option String
  extFileIDLengthInt : Int
  contentSize : Int
  deriving DecidableEq

/-- `UnixArchiveFileHeader(with:)`. -/
def UnixArchiveFileHeader.init (g : Segmentation) (s : DataShifter) :
    Run (UnixArchiveFileHeader × DataShifter) := do
  let (fileIDData, s) ← s.shift (.rawNumber 16)
  let fileID ← guardLet fileIDData.utf8String
  let (modificationTS, s) ← s.shift (.rawNumber 12)
  let (ownerID, s) ← s.shift (.rawNumber 6)
  let (groupID, s) ← s.shift (.rawNumber 6)
  let (fileMode, s) ← s.shift .quadWords
  let (contentSizeData, s) ← s.shift (.rawNumber 10)
  let contentSizeString ← guardLet contentSizeData.utf8String
  let contentSize ← guardLet (parseInt (spaceRemoved contentSizeString))
  let (ending, s) ← s.shift .word
  guardElse (ending.utf8String == some "`\n")
  let header : UnixArchiveFileHeader := {
    fileID := spaceRemoved fileID
    modificationTS := modificationTS.utf8String
    ownerID := ownerID.utf8String
    groupID := groupID.utf8String
    fileMode := fileMode.utf8String
    extFileIDLengthInt := 0
    contentSize := contentSize }
  if g.hasPrefix fileID "#1/" then
    let extFileIDLength ← guardLet (← fileIDData.subSequence 3 13).utf8String
    let extFileIDLengthInt ← guardLet (parseInt (spaceRemoved extFileIDLength))
    let (extendedFileIDData, s) ← s.shift (.rawNumber extFileIDLengthInt)
    let extendedFileID ← guardLet extendedFileIDData.utf8String
    return ({ header with
      fileID := spaceRemoved extendedFileID
      extFileIDLengthInt := extFileIDLengthInt }, s)
  else return (header, s)

/-- A header at `k` whose first 60 bytes can be read: what it has for the name and the size. -/
structure HeaderText (d : Data) (k : Nat) (fileID : String) (contentSize : Int) : Prop where
  fits : k + 60 ≤ d.count
  fileID : (d.window k 16).utf8String = some fileID
  size : ∃ text, (d.window (k + 48) 10).utf8String = some text ∧
    parseInt (spaceRemoved text) = some contentSize
  ending : (d.window (k + 58) 2).utf8String = some "`\n"

/-- The header at `k` with its name, as it is returned. -/
def UnixArchiveFileHeader.layout (d : Data) (k : Nat) (fileID : String)
    (extFileIDLengthInt contentSize : Int) : UnixArchiveFileHeader where
  fileID := fileID
  modificationTS := (d.window (k + 16) 12).utf8String
  ownerID := (d.window (k + 28) 6).utf8String
  groupID := (d.window (k + 34) 6).utf8String
  fileMode := (d.window (k + 40) 8).utf8String
  extFileIDLengthInt := extFileIDLengthInt
  contentSize := contentSize

/-- The name of the header at `k` and the length it has in front of the content: the text of the header,
or the bytes behind it whose number the text gives. -/
inductive NameText (g : Segmentation) (d : Data) (k : Nat) (fileID : String) : String → Nat → Prop
  | short (hmark : g.hasPrefix fileID "#1/" = false) :
      NameText g d k fileID (spaceRemoved fileID) 0
  | extended {n : Nat} {text name : String} (hmark : g.hasPrefix fileID "#1/" = true) (hpos : 0 < n)
      (htext : (d.window (k + 3) 13).utf8String = some text)
      (hnumber : parseInt (spaceRemoved text) = some (n : Int)) (hfits : k + 60 + n ≤ d.count)
      (hname : (d.window (k + 60) n).utf8String = some name) :
      NameText g d k fileID (spaceRemoved name) n

/-- **What the initializer reads**: the fields of the header and the name. -/
theorem unixArchiveFileHeader_init_eq_ok {g : Segmentation} {d : Data} {k : Nat}
    {r : UnixArchiveFileHeader × DataShifter} :
    UnixArchiveFileHeader.init g (cursor d k) = .ok r ↔ ∃ fileID contentSize name n,
      HeaderText d k fileID contentSize ∧ NameText g d k fileID name n ∧
        r = (.layout d k name n contentSize, cursor d (k + 60 + n)) := by
  have h16 : (Straddle.rawNumber 16).raw = (16 : Nat) := rfl
  have h12 : (Straddle.rawNumber 12).raw = (12 : Nat) := rfl
  have h6 : (Straddle.rawNumber 6).raw = (6 : Nat) := rfl
  have h8 : Straddle.quadWords.raw = (8 : Nat) := rfl
  have h10 : (Straddle.rawNumber 10).raw = (10 : Nat) := rfl
  have h2 : Straddle.word.raw = (2 : Nat) := rfl
  have hsub : k + 60 ≤ d.count → (d.window k 16).subSequence 3 13 = .ok (d.window (k + 3) 13) := by
    intro hle
    rw [Data.subSequence_ok (by decide) (by rw [d.window_count (by omega)]),
      d.window_window (by decide)]
  unfold UnixArchiveFileHeader.init
  simp only [shift_bind h16, shift_bind h12, shift_bind h6, shift_bind h8, shift_bind h10,
    shift_bind h2, guardLet_bind, guardElse_bind, Nat.add_assoc, Nat.reduceAdd, true_and,
    Nat.zero_lt_succ, beq_iff_eq]
  constructor
  · rintro ⟨-, fileID, hfileID, -, -, -, -, -, sizeText, hsizeText, contentSize, hsize, hle, hending, h⟩
    have htext : HeaderText d k fileID contentSize := ⟨hle, hfileID, ⟨sizeText, hsizeText, hsize⟩, hending⟩
    by_cases hmark : g.hasPrefix fileID "#1/" = true
    · rw [if_pos hmark, hsub hle, ok_bind] at h
      simp only [guardLet_bind] at h
      obtain ⟨text, hnumberText, z, hnumber, h⟩ := h
      rw [bind_eq_ok] at h
      obtain ⟨⟨nameData, t⟩, hshift, h⟩ := h
      obtain ⟨-, -, hpos, -⟩ := shift_forward hshift
      obtain ⟨n, rfl⟩ := Int.eq_ofNat_of_zero_le (Int.le_of_lt hpos)
      obtain ⟨hn, hfits, hr⟩ := shift_rawNumber.mp hshift
      cases hr
      rw [guardLet_bind] at h
      obtain ⟨name, hname, h⟩ := h
      rw [pure_eq_ok, Except.ok.injEq] at h
      subst h
      refine ⟨fileID, contentSize, _, n, htext, .extended hmark hn hnumberText hnumber hfits hname, ?_⟩
      rw [← Nat.add_assoc]
      rfl
    · rw [if_neg hmark, pure_eq_ok, Except.ok.injEq] at h
      subst h
      exact ⟨fileID, contentSize, _, 0, htext, .short (by simpa using hmark), rfl⟩
  · rintro ⟨fileID, contentSize, name, n, ⟨hle, hfileID, ⟨sizeText, hsizeText, hsize⟩, hending⟩, hname, rfl⟩
    refine ⟨by omega, fileID, hfileID, by omega, by omega, by omega, by omega, by omega, sizeText, hsizeText,
      contentSize, hsize, hle, hending, ?_⟩
    cases hname with
    | short hmark =>
      rw [hmark, if_neg Bool.false_ne_true]
      rfl
    | extended hmark hpos htext hnumber hfits hname =>
      rw [hmark, if_pos rfl, hsub hle, ok_bind, htext]
      simp only [guardLet_bind, Option.some.injEq, exists_eq_left', hnumber, shift_rawNumber_bind, hname]
      exact ⟨hpos, hfits, by rw [Nat.add_assoc]; rfl⟩

/-- `UnixArchive`. -/
structure UnixArchive where
  machoMetaDatas : List MachoMetaData
  deriving DecidableEq

namespace UnixArchive

/-- `"!<arch>\n"`. -/
def magic : List UInt8 := [0x21, 0x3C, 0x61, 0x72, 0x63, 0x68, 0x3E, 0x0A]

/-- One turn of the loop of `UnixArchive.init`: nothing is added for a `__.SYMDEF` member. -/
def nextMember (g : Segmentation) (s : DataShifter) :
    Opening (Option MachoMetaData × DataShifter) := do
  let (fileHeader, s) ← ofRun (UnixArchiveFileHeader.init g s)
  let size := fileHeader.contentSize - fileHeader.extFileIDLengthInt
  if g.hasPrefix fileHeader.fileID "__.SYMDEF" then return (none, s.skip (.rawNumber size))
  else
    let (machoData, s) ← ofRun (s.shift (.rawNumber size))
    let metaData ← MachoMetaData.init fileHeader.fileID machoData.rebased
    return (some metaData, s)

/-- The member at `k`: what one turn adds for it, and the offset of the next one. The size of a
`__.SYMDEF` member may be anything; that of a thin file is positive and in the file. -/
inductive MemberAt (g : Segmentation) (d : Data) (k : Nat) : Option MachoMetaData → Int → Prop
  | symdef {fileID name : String} {size : Int} {n : Nat} (htext : HeaderText d k fileID size)
      (hname : NameText g d k fileID name n) (hsymdef : g.hasPrefix name "__.SYMDEF" = true) :
      MemberAt g d k none (k + 60 + size)
  | macho {fileID name : String} {n m : Nat} (htext : HeaderText d k fileID (n + m : Nat))
      (hname : NameText g d k fileID name n) (hsymdef : g.hasPrefix name "__.SYMDEF" = false)
      (hpos : 0 < m) (hfits : k + 60 + n + m ≤ d.count) (is64Bit : Bool)
      (hmagic : (d.window (k + 60 + n) m).starts (machoMagic is64Bit) = true)
      (hfull : machoHeaderSize is64Bit ≤ m) :
      MemberAt g d k (some (.ofThin name is64Bit (d.window (k + 60 + n) m).rebased))
        (k + 60 + (n + m : Nat))

/-- A member has a header. -/
theorem MemberAt.headerText {g : Segmentation} {d : Data} {k : Nat} {r : Option MachoMetaData}
    {next : Int} (h : MemberAt g d k r next) : ∃ fileID size, HeaderText d k fileID size := by
  cases h with
  | symdef htext _ _ => exact ⟨_, _, htext⟩
  | macho htext _ _ _ _ _ _ _ => exact ⟨_, _, htext⟩

theorem MemberAt.fits {g : Segmentation} {d : Data} {k : Nat} {r : Option MachoMetaData} {next : Int}
    (h : MemberAt g d k r next) : k + 60 ≤ d.count := by
  obtain ⟨_, _, htext⟩ := h.headerText
  exact htext.fits

/-- **One turn at offset `k`** returns what the member there adds and leaves the cursor at the next. -/
theorem nextMember_eq_ok {g : Segmentation} {d : Data} {k : Nat} {r : Option MachoMetaData}
    {t : DataShifter} :
    nextMember g (cursor d k) = .ok (r, t) ↔ ∃ next, MemberAt g d k r next ∧ t = ⟨d, next⟩ := by
  unfold nextMember
  rw [ofRun_bind_eq_ok]
  constructor
  · rintro ⟨⟨header, s⟩, hheader, h⟩
    obtain ⟨fileID, size, name, n, htext, hname, heq⟩ := unixArchiveFileHeader_init_eq_ok.mp hheader
    cases heq
    by_cases hsymdef : g.hasPrefix name "__.SYMDEF" = true
    · simp only [UnixArchiveFileHeader.layout, hsymdef, if_true] at h
      cases h
      refine ⟨_, .symdef htext hname hsymdef, ?_⟩
      simp only [skip, cursor, Straddle.raw, DataShifter.mk.injEq, true_and]
      omega
    · simp only [UnixArchiveFileHeader.layout, hsymdef, Bool.false_eq_true, if_false] at h
      rw [ofRun_bind_eq_ok] at h
      obtain ⟨⟨machoData, u⟩, hshift, h⟩ := h
      obtain ⟨-, -, hraw, -⟩ := shift_forward hshift
      simp only [Straddle.raw] at hraw
      obtain ⟨m, rfl⟩ : ∃ m : Nat, size = (n + m : Nat) := ⟨(size - n).toNat, by omega⟩
      have hm : (((n + m : Nat) : Int) - n) = (m : Nat) := by omega
      rw [hm] at hshift
      obtain ⟨hpos, hfits, hr⟩ := shift_rawNumber.mp hshift
      cases hr
      rw [bind_eq_ok] at h
      obtain ⟨metaData, hmeta, h⟩ := h
      cases h
      obtain ⟨is64Bit, hmagic, hfull, rfl⟩ := machoMetaData_init_eq_ok.mp hmeta
      have hcount := d.window_count hfits
      refine ⟨_, .macho htext hname (by simpa using hsymdef) hpos hfits is64Bit hmagic ?_, ?_⟩
      · exact hfull.trans_eq hcount
      · simp only [cursor, DataShifter.mk.injEq, true_and]
        omega
  · rintro ⟨next, hmember, rfl⟩
    cases hmember with
    | symdef htext hname hsymdef =>
      refine ⟨_, unixArchiveFileHeader_init_eq_ok.mpr ⟨_, _, _, _, htext, hname, rfl⟩, ?_⟩
      simp only [UnixArchiveFileHeader.layout, hsymdef, if_true, pure_eq_ok, skip, cursor, Straddle.raw]
      congr 3
      omega
    | @macho fileID name n m htext hname hsymdef hpos hfits is64Bit hmagic hfull =>
      have hm : (((n + m : Nat) : Int) - n) = (m : Nat) := by omega
      have hshift : (cursor d (k + 60 + n)).shift (.rawNumber m) = _ := shift_ok rfl hpos hfits
      have hinit : MachoMetaData.init name (d.window (k + 60 + n) m).rebased =
          .ok (.ofThin name is64Bit (d.window (k + 60 + n) m).rebased) := by
        refine machoMetaData_init_eq_ok.mpr ⟨is64Bit, hmagic, ?_, rfl⟩
        exact hfull.trans_eq (d.window_count hfits).symm
      refine ⟨_, unixArchiveFileHeader_init_eq_ok.mpr ⟨_, _, _, _, htext, hname, rfl⟩, ?_⟩
      simp only [UnixArchiveFileHeader.layout, hsymdef, Bool.false_eq_true, if_false, hm,
        hshift, ofRun_ok, ok_bind, hinit, pure_eq_ok]
      simp only [cursor, Nat.add_assoc, Nat.cast_add, Int.add_assoc]
      rfl

/-- `while dataShifter.shiftable { … }`. -/
def memberLoop (g : Segmentation) : Walk Failure DataShifter (Option MachoMetaData) where
  more := DataShifter.shiftable
  next := nextMember g

/-- The cursor after the magic. -/
def firstMember (d : Data) : DataShifter := (DataShifter.init d).skip .quadWords

/-- `UnixArchive(with:)`, with at most `fuel` turns of its loop. -/
def init (g : Segmentation) (fuel : Nat) (fileData : Data) : Opening UnixArchive :=
  if fileData.starts magic then
    match (memberLoop g).run fuel (firstMember fileData) with
    | none => .error .unfinished
    | some (.error e) => .error e
    | some (.ok (members, _)) => .ok ⟨members.reduceOption⟩
  else .error (.thrown .unixArchiveError)

end UnixArchive

end Mocha
