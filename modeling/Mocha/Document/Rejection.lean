import Mocha.Document.Termination

/-!
# Files that are not opened

A file that is not opened is rejected with a `MochaDocumentError`, or it ends the process: the helpers
under the initializers do not throw when they cannot go on. `Broken` lists, by the bytes of the file,
the places where they cannot: a Mach-O header cut short, an archive member that cannot be read, a table
of slices or a slice outside the file, and any of these inside a slice that is come to.

**`init_rejects`**: nothing but a `MochaDocumentError` is thrown, the process ends exactly for broken
files, and a file with none of the magic numbers is not broken.
-/

namespace Mocha

open Lib DataShifter

/-- A Mach-O magic, but not a whole header. -/
def CutShort (d : Data) : Prop :=
  ∃ is64Bit, d.starts (machoMagic is64Bit) = true ∧ d.count < machoHeaderSize is64Bit

/-- No member of the archive `d` can be read at an offset: the offset lies before the file, there is no header
with a name, or the content is empty, sticks out of the file or is a Mach-O file cut short. -/
inductive BrokenMember (g : Segmentation) (d : Data) : Int → Prop
  | before {p : Int} (hp : p < 0) : BrokenMember g d p
  | header {k : Nat} (hheader : ∀ fileID size name n, HeaderText d k fileID size →
      ¬ NameText g d k fileID name n) : BrokenMember g d k
  | content {k n : Nat} {fileID name : String} {size : Int} (htext : HeaderText d k fileID size)
      (hname : NameText g d k fileID name n) (hsymdef : g.hasPrefix name "__.SYMDEF" = false)
      (hcontent : size ≤ n ∨ d.count < k + 60 + size) : BrokenMember g d k
  | macho {k n m : Nat} {fileID name : String} (htext : HeaderText d k fileID (n + m : Nat))
      (hname : NameText g d k fileID name n) (hsymdef : g.hasPrefix name "__.SYMDEF" = false)
      (hpos : 0 < m) (hfits : k + 60 + n + m ≤ d.count)
      (hmacho : CutShort (d.window (k + 60 + n) m)) : BrokenMember g d k

/-- The entry of a slice is not in the file, or the slice is empty or sticks out of it. -/
def SliceOutside (d : Data) (index : Nat) : Prop :=
  d.count < 28 + index * 20 ∨ d.bigWordAt (20 + index * 20) = 0 ∨
    d.count < d.bigWordAt (16 + index * 20) + d.bigWordAt (20 + index * 20)

/-- A file whose structure is broken where it is read. -/
inductive Broken (g : Segmentation) (name : String) : Data → Prop
  | macho {d : Data} (hmacho : CutShort d) : Broken g name d
  | member {d : Data} {p : Int} (hmagic : d.starts UnixArchive.magic = true)
      (hreach : Relation.ReflTransGen (Follows g d) 8 p) (hmore : p < d.count)
      (hmember : BrokenMember g d p) : Broken g name d
  | table {d : Data} (hmagic : d.starts FatBinary.magic = true) (hshort : d.count < 8) :
      Broken g name d
  | slice {d : Data} {index : Nat} {metaDatas : List MachoMetaData}
      (hmagic : d.starts FatBinary.magic = true) (htable : 8 ≤ d.count) (hlt : index < d.bigWordAt 4)
      (harchs : OpensArchs g name d index 0 metaDatas) (hslice : SliceOutside d index) : Broken g name d
  | nested {d e : Data} (hcomes : Comes g name d e) (hbroken : Broken g name e) : Broken g name d

/-! ## Traps of the parts -/

theorem ofRun_bind_trap {α β : Type} {x : Run α} {f : α → Opening β} {t : Trap} :
    (ofRun x >>= f) = .error (.trap t) ↔
      x = .error t ∨ ∃ a, x = .ok a ∧ f a = .error (.trap t) := by
  cases x with
  | ok a =>
    constructor
    · intro h
      exact .inr ⟨a, rfl, h⟩
    · rintro (h | ⟨b, h, hb⟩)
      · cases h
      · cases h
        exact hb
  | error t' =>
    constructor
    · intro h
      cases h
      exact .inl rfl
    · rintro (h | ⟨b, h, _⟩)
      · cases h
        rfl
      · cases h

theorem bind_pure_eq_error {α β : Type} {x : Opening α} {f : α → β} {e : Failure} :
    (x >>= fun a => pure (f a)) = .error e ↔ x = .error e := by
  cases x with
  | ok a => exact iff_of_false (by intro h; cases h) (by intro h; cases h)
  | error e' =>
    rw [error_bind, Except.error.injEq, Except.error.injEq]

theorem machoHeader_init_trap {d : Data} {is64Bit : Bool} :
    (∃ t, MachoHeader.init d is64Bit = .error t) ↔ d.count < machoHeaderSize is64Bit := by
  constructor
  · rintro ⟨t, h⟩
    by_contra hle
    rw [machoHeader_init_total (Nat.le_of_not_lt hle)] at h
    cases h
  · intro hlt
    cases h : MachoHeader.init d is64Bit with
    | error t => exact ⟨t, rfl⟩
    | ok header => exact absurd (machoHeader_init_eq_ok.mp h).1 (Nat.not_le_of_lt hlt)

/-- A thin file traps iff it is cut short. -/
theorem machoMetaData_trap (name : String) {d : Data} :
    (∃ t, MachoMetaData.init name d = .error (.trap t)) ↔ CutShort d := by
  have hpart : ∀ is64Bit, (∃ t, (do return ⟨name, is64Bit, d, ← ofRun (MachoHeader.init d is64Bit)⟩ :
      Opening MachoMetaData) = .error (.trap t)) ↔ d.count < machoHeaderSize is64Bit := by
    intro is64Bit
    rw [← machoHeader_init_trap]
    refine exists_congr fun t => ?_
    rw [bind_pure_eq_error]
    cases MachoHeader.init d is64Bit with
    | ok header => exact iff_of_false (by intro h; cases h) (by intro h; cases h)
    | error t' => rw [ofRun_error, Except.error.injEq, Except.error.injEq, Failure.trap.injEq]
  unfold MachoMetaData.init CutShort
  by_cases h32 : d.starts (machoMagic false) = true
  · rw [if_pos h32, hpart]
    constructor
    · exact fun hlt => ⟨false, h32, hlt⟩
    · rintro ⟨is64Bit, hmagic, hlt⟩
      cases is64Bit with
      | false => exact hlt
      | true =>
        rw [machoMagic_ne hmagic] at h32
        cases h32
  · rw [if_neg h32]
    by_cases h64 : d.starts (machoMagic true) = true
    · rw [if_pos h64, hpart]
      constructor
      · exact fun hlt => ⟨true, h64, hlt⟩
      · rintro ⟨is64Bit, hmagic, hlt⟩
        cases is64Bit with
        | false => exact absurd hmagic h32
        | true => exact hlt
    · rw [if_neg h64]
      constructor
      · rintro ⟨t, h⟩
        cases h
      · rintro ⟨is64Bit, hmagic, _⟩
        cases is64Bit with
        | false => exact absurd hmagic h32
        | true => exact absurd hmagic h64

theorem unixArchiveFileHeader_init_trap {g : Segmentation} {d : Data} {k : Nat} :
    (∃ t, UnixArchiveFileHeader.init g (cursor d k) = .error t) ↔
      ∀ fileID size name n, HeaderText d k fileID size → ¬ NameText g d k fileID name n := by
  simp only [exists_error_iff, ne_eq, unixArchiveFileHeader_init_eq_ok]
  constructor
  · exact fun h fileID size name n htext hname => h _ ⟨fileID, size, name, n, htext, hname, rfl⟩
  · rintro h r ⟨fileID, size, name, n, htext, hname, -⟩
    exact h fileID size name n htext hname

/-- Before the file there is no header. -/
theorem unixArchiveFileHeader_init_before {g : Segmentation} {d : Data} {p : Int} (hp : p < 0) :
    ∃ t, UnixArchiveFileHeader.init g ⟨d, p⟩ = .error t := by
  rw [exists_error_iff]
  intro r h
  unfold UnixArchiveFileHeader.init at h
  rw [bind_eq_ok] at h
  obtain ⟨first, hshift, -⟩ := h
  exact absurd (shift_nonneg hshift) (Int.not_le.mpr hp)

theorem shift_rawNumber_trap {d : Data} {k : Nat} {size : Int} :
    (∃ t, (cursor d k).shift (.rawNumber size) = .error t) ↔ size ≤ 0 ∨ d.count < k + size := by
  rw [exists_error_iff]
  constructor
  · intro h
    by_contra hin
    obtain ⟨hpos, hle⟩ := not_or.mp hin
    obtain ⟨n, rfl⟩ := Int.eq_ofNat_of_zero_le (by omega : 0 ≤ size)
    exact h _ (shift_rawNumber.mpr ⟨by omega, by omega, rfl⟩)
  · rintro hout ⟨e, t⟩ h
    obtain ⟨-, -, hpos, hle⟩ := shift_forward h
    simp only [Straddle.raw, cursor] at hpos hle
    omega

/-- A member traps iff it is broken. -/
theorem nextMember_trap {g : Segmentation} {d : Data} {p : Int} :
    (∃ t, UnixArchive.nextMember g ⟨d, p⟩ = .error (.trap t)) ↔ BrokenMember g d p := by
  unfold UnixArchive.nextMember
  simp only [ofRun_bind_trap]
  constructor
  · rintro ⟨t, htrap⟩
    by_cases hp : p < 0
    · exact .before hp
    · obtain ⟨k, rfl⟩ := Int.eq_ofNat_of_zero_le (Int.not_lt.mp hp)
      rcases htrap with hheader | ⟨⟨header, u⟩, hheader, h⟩
      · exact .header (unixArchiveFileHeader_init_trap.mp ⟨t, hheader⟩)
      · obtain ⟨fileID, size, name, n, htext, hname, heq⟩ := unixArchiveFileHeader_init_eq_ok.mp hheader
        cases heq
        cases hsymdef : g.hasPrefix name "__.SYMDEF" with
        | true =>
          simp only [UnixArchiveFileHeader.layout, hsymdef, if_true] at h
          cases h
        | false =>
          simp only [UnixArchiveFileHeader.layout, hsymdef, Bool.false_eq_true, if_false] at h
          rw [ofRun_bind_trap] at h
          rcases h with hcontent | ⟨⟨machoData, v⟩, hcontent, h⟩
          · have hout := shift_rawNumber_trap.mp ⟨t, hcontent⟩
            exact .content htext hname hsymdef (by omega)
          · obtain ⟨-, -, hraw, -⟩ := shift_forward hcontent
            simp only [Straddle.raw] at hraw
            obtain ⟨m, rfl⟩ : ∃ m : Nat, size = (n + m : Nat) := ⟨(size - n).toNat, by omega⟩
            have hm : (((n + m : Nat) : Int) - n) = (m : Nat) := by omega
            rw [hm] at hcontent
            obtain ⟨hpos, hfits, hr⟩ := shift_rawNumber.mp hcontent
            cases hr
            have hmacho : CutShort (d.window (k + 60 + n) m).rebased :=
              (machoMetaData_trap name).mp ⟨t, bind_pure_eq_error.mp h⟩
            exact .macho htext hname hsymdef hpos hfits hmacho
  · intro h
    cases h with
    | before hp =>
      obtain ⟨t, ht⟩ := unixArchiveFileHeader_init_before (g := g) (d := d) hp
      exact ⟨t, .inl ht⟩
    | header hheader =>
      obtain ⟨t, ht⟩ := unixArchiveFileHeader_init_trap.mpr hheader
      exact ⟨t, .inl ht⟩
    | @content k n fileID name size htext hname hsymdef hcontent =>
      have hheader := unixArchiveFileHeader_init_eq_ok.mpr ⟨fileID, size, name, n, htext, hname, rfl⟩
      obtain ⟨t, ht⟩ := (@shift_rawNumber_trap d (k + 60 + n) (size - n)).mpr (by omega)
      refine ⟨t, .inr ⟨_, hheader, ?_⟩⟩
      simp only [UnixArchiveFileHeader.layout, hsymdef, Bool.false_eq_true, if_false]
      exact ofRun_bind_trap.mpr (.inl ht)
    | @macho k n m fileID name htext hname hsymdef hpos hfits hmacho =>
      have hheader := unixArchiveFileHeader_init_eq_ok.mpr ⟨fileID, _, name, n, htext, hname, rfl⟩
      have hm : (((n + m : Nat) : Int) - n) = (m : Nat) := by omega
      have hrebased : CutShort (d.window (k + 60 + n) m).rebased := hmacho
      obtain ⟨t, ht⟩ := (machoMetaData_trap name).mpr hrebased
      refine ⟨t, .inr ⟨_, hheader, ?_⟩⟩
      simp only [UnixArchiveFileHeader.layout, hsymdef, Bool.false_eq_true, if_false, hm]
      exact ofRun_bind_trap.mpr
        (.inr ⟨_, shift_rawNumber.mpr ⟨hpos, hfits, rfl⟩, bind_pure_eq_error.mpr ht⟩)

theorem subFileData_trap {d : Data} {index : Nat} :
    (∃ t, FatBinary.subFileData d index = .error t) ↔ SliceOutside d index := by
  simp only [exists_error_iff, ne_eq, subFileData_eq_ok]
  unfold SliceOutside
  constructor
  · intro h
    by_contra hin
    exact h _ ⟨by omega, by omega, by omega, rfl⟩
  · rintro hout e ⟨hentry, hpos, hfits, -⟩
    omega

/-! ## Traps of a file -/

section File

variable {g : Segmentation} {name : String}

theorem asDocument_trap {d : Data} {x : Opening (List MachoMetaData)} {t : Trap} :
    asDocument name d x = .error (.trap t) ↔ x = .error (.trap t) := by
  cases x with
  | ok metaDatas => exact iff_of_false (by intro h; cases h) (by intro h; cases h)
  | error e =>
    cases e with
    | trap t' => rw [asDocument, Except.error.injEq, Except.error.injEq]
    | _ => exact iff_of_false (by intro h; cases h) (by intro h; cases h)

/-- The archive traps iff one of its members is broken. -/
theorem archive_trap {fuel : Nat} {d : Data} {t : Trap} (hmagic : d.starts UnixArchive.magic = true) :
    UnixArchive.init g fuel d = .error (.trap t) ↔
      (UnixArchive.memberLoop g).run fuel (UnixArchive.firstMember d) = some (.error (.trap t)) := by
  unfold UnixArchive.init
  rw [if_pos hmagic]
  cases (UnixArchive.memberLoop g).run fuel (UnixArchive.firstMember d) with
  | none => exact iff_of_false (by intro h; cases h) (by intro h; cases h)
  | some r =>
    cases r with
    | ok p => exact iff_of_false (by intro h; cases h) (by intro h; cases h)
    | error e =>
      constructor
      · intro h
        cases h
        rfl
      · intro h
        cases h
        rfl

/-- Where opening slices traps: at an entry or a slice outside the file, or inside a slice. -/
theorem archLoop_trap {d : Data} {number fuel : Nat} {t : Trap}
    (hmagic : d.starts FatBinary.magic = true) (hnumber : FatBinary.numberOfArchs d = .ok number)
    {left : Nat} : ∀ {index : Nat} {metaDatas : List MachoMetaData}, index + left = number →
      OpensArchs g name d index 0 metaDatas →
      FatBinary.archLoop (MochaDocument.init g fuel) d name left index = .error (.trap t) →
      Broken g name d ∨
        ∃ e, Comes g name d e ∧ MochaDocument.init g fuel name e = .error (.trap t) := by
  induction left with
  | zero =>
    intro index metaDatas _ _ h
    cases h
  | succ left ih =>
    intro index metaDatas hleft harchs h
    rw [FatBinary.archLoop, ofRun_bind_trap] at h
    rcases h with hsub | ⟨e, hsub, h⟩
    · obtain ⟨htable, heq⟩ := numberOfArchs_eq_ok.mp hnumber
      exact .inl (.slice hmagic htable (by omega) harchs (subFileData_trap.mp ⟨t, hsub⟩))
    · cases hinit : MochaDocument.init g fuel name e with
      | error failure =>
        rw [hinit, error_bind] at h
        cases h
        exact .inr ⟨e, ⟨hmagic, number, index, metaDatas, hnumber, by omega, harchs, hsub⟩, hinit⟩
      | ok document =>
        rw [hinit, ok_bind] at h
        have hopens := (opens_of_init hinit).2.2
        exact ih (by omega) (harchs.snoc (by rwa [Nat.zero_add]) hopens) (bind_pure_eq_error.mp h)

theorem broken_of_trap {fuel : Nat} {d : Data} {t : Trap}
    (h : MochaDocument.init g fuel name d = .error (.trap t)) : Broken g name d := by
  induction fuel generalizing d with
  | zero => cases h
  | succ fuel ih =>
    rw [init_succ, asDocument_trap] at h
    unfold contents at h
    split at h
    · rename_i hmagic
      rw [bind_pure_eq_error, archive_trap hmagic] at h
      obtain ⟨members, u, hturns, hmore, hnext⟩ := Walk.exists_run_error_iff.mp ⟨fuel, h⟩
      obtain ⟨p, hreach, rfl⟩ := (exists_memberLoop_turns_iff 8).mp ⟨members, hturns⟩
      exact .member hmagic hreach (of_decide_eq_true hmore) (nextMember_trap.mp ⟨t, hnext⟩)
    · split at h
      · rename_i hmagic
        rw [ofRun_bind_trap] at h
        rcases h with hnumber | ⟨number, hnumber, h⟩
        · refine .table hmagic (Nat.lt_of_not_le fun hle => ?_)
          rw [numberOfArchs_eq_ok.mpr ⟨hle, rfl⟩] at hnumber
          cases hnumber
        · rcases archLoop_trap hmagic hnumber (Nat.zero_add number) (.nil d 0) h with
            hbroken | ⟨e, hcomes, he⟩
          · exact hbroken
          · exact .nested hcomes (ih he)
      · exact .macho ((machoMetaData_trap name).mp ⟨t, bind_pure_eq_error.mp h⟩)

/-- The slices of a fat file, up to one that traps. -/
theorem trap_of_arch (fuel : Nat) {d : Data} {number index : Nat} {metaDatas : List MachoMetaData}
    {t : Trap} (hmagic : d.starts FatBinary.magic = true)
    (hnumber : FatBinary.numberOfArchs d = .ok number) (hlt : index < number)
    (harchs : OpensArchs g name d index 0 metaDatas)
    (htrap : ∀ left, FatBinary.archLoop (MochaDocument.init g fuel) d name (left + 1) index =
      .error (.trap t)) : ∃ fuel, MochaDocument.init g fuel name d = .error (.trap t) := by
  obtain ⟨enough, henough⟩ := harchs.exists_archLoop
  have hfirst := (archLoop_within (fun e => @init_mono g name _ _
    (Nat.le_max_left enough fuel) e) index 0).eq_of_ne (by rw [henough]; intro he; cases he)
  obtain ⟨left, rfl⟩ : ∃ left, number = index + (left + 1) := ⟨number - index - 1, by omega⟩
  have hlast := (archLoop_within (fun e => @init_mono g name _ _
    (Nat.le_max_right enough fuel) e) (left + 1) index).eq_of_ne
      (by rw [htrap left]; intro he; cases he)
  refine ⟨max enough fuel + 1, ?_⟩
  rw [init_succ, contents, if_neg (fat_not_archive hmagic), if_pos hmagic, hnumber, ofRun_ok,
    ok_bind, archLoop_add, hfirst, henough, ok_bind, Nat.zero_add, hlast, htrap left]
  rfl

theorem trap_of_broken {d : Data} (h : Broken g name d) :
    ∃ fuel t, MochaDocument.init g fuel name d = .error (.trap t) := by
  induction h with
  | @macho d hmacho =>
    obtain ⟨t, ht⟩ := (machoMetaData_trap name).mpr hmacho
    obtain ⟨is64Bit, hmagic, _⟩ := hmacho
    have harchive : ¬ d.starts UnixArchive.magic = true := by
      intro h
      rw [archive_not_macho h is64Bit] at hmagic
      cases hmagic
    have hfat : ¬ d.starts FatBinary.magic = true := by
      intro h
      rw [fat_not_macho h is64Bit] at hmagic
      cases hmagic
    exact ⟨1, t, by rw [init_succ, contents, if_neg harchive, if_neg hfat, ht]; rfl⟩
  | member hmagic hreach hmore hmember =>
    obtain ⟨t, ht⟩ := nextMember_trap.mpr hmember
    obtain ⟨members, hturns⟩ := (exists_memberLoop_turns_iff 8).mpr ⟨_, hreach, rfl⟩
    obtain ⟨fuel, hrun⟩ := Walk.exists_run_error_iff.mpr ⟨_, _, hturns, decide_eq_true hmore, ht⟩
    exact ⟨fuel + 1, t, by
      rw [init_succ, contents, if_pos hmagic, (archive_trap hmagic).mpr hrun]; rfl⟩
  | @table d hmagic hshort =>
    cases hnumber : FatBinary.numberOfArchs d with
    | ok number => exact absurd (numberOfArchs_eq_ok.mp hnumber).1 (Nat.not_le_of_lt hshort)
    | error t =>
      refine ⟨1, t, ?_⟩
      rw [init_succ, contents, if_neg (fat_not_archive hmagic), if_pos hmagic, hnumber]
      rfl
  | slice hmagic htable hlt harchs hslice =>
    obtain ⟨t, hsub⟩ := subFileData_trap.mpr hslice
    obtain ⟨fuel, hfuel⟩ := trap_of_arch 0 hmagic (numberOfArchs_eq_ok.mpr ⟨htable, rfl⟩) hlt harchs
      (fun left => by rw [FatBinary.archLoop, hsub]; rfl)
    exact ⟨fuel, t, hfuel⟩
  | nested hcomes _ ih =>
    obtain ⟨fuel, t, hfuel⟩ := ih
    obtain ⟨hmagic, number, index, metaDatas, hnumber, hlt, harchs, hsub⟩ := hcomes
    obtain ⟨enough, henough⟩ := trap_of_arch fuel hmagic hnumber hlt harchs
      (fun left => by rw [FatBinary.archLoop, hsub, ofRun_ok, ok_bind, hfuel]; rfl)
    exact ⟨enough, t, henough⟩

/-- **The process ends exactly for broken files.** -/
theorem trap_iff_broken {d : Data} :
    (∃ fuel t, MochaDocument.init g fuel name d = .error (.trap t)) ↔ Broken g name d := by
  constructor
  · rintro ⟨fuel, t, h⟩
    exact broken_of_trap h
  · exact trap_of_broken

theorem init_thrown {fuel : Nat} {d : Data} {e : OpeningError}
    (h : MochaDocument.init g fuel name d = .error (.thrown e)) : e = .mochaDocumentError := by
  cases fuel with
  | zero => cases h
  | succ fuel =>
    rw [init_succ] at h
    cases hcontents : contents g fuel name d with
    | ok metaDatas =>
      rw [hcontents] at h
      cases h
    | error failure =>
      rw [hcontents] at h
      cases failure with
      | thrown e' =>
        cases h
        rfl
      | trap t => cases h
      | unfinished => cases h

end File

/-- The file starts with the magic number of an archive, a fat file or a Mach-O file. -/
def HasMagic (d : Data) : Prop :=
  d.starts UnixArchive.magic = true ∨ d.starts FatBinary.magic = true ∨
    ∃ is64Bit, d.starts (machoMagic is64Bit) = true

instance (d : Data) : Decidable (HasMagic d) := inferInstanceAs (Decidable (_ ∨ _ ∨ ∃ _, _))

/-- **How files are rejected.** Whatever is thrown is a `MochaDocumentError`; it is thrown for every
file without one of the magic numbers, and for every file that is neither opened nor broken, if
opening it ends at all; and the process ends exactly for the broken ones. -/
theorem init_rejects (g : Segmentation) (name : String) (bytes : List UInt8) :
    (∀ fuel e, MochaDocument.init g fuel name ⟨0, bytes⟩ = .error (.thrown e) →
      e = .mochaDocumentError) ∧
    (¬ HasMagic ⟨0, bytes⟩ → ∀ fuel,
      MochaDocument.init g (fuel + 1) name ⟨0, bytes⟩ = .error (.thrown .mochaDocumentError)) ∧
    (¬ Endless g name ⟨0, bytes⟩ → ¬ Broken g name ⟨0, bytes⟩ →
      (∀ metaDatas, ¬ Opens g name ⟨0, bytes⟩ metaDatas) → ∃ bound, ∀ fuel, bound ≤ fuel →
        MochaDocument.init g fuel name ⟨0, bytes⟩ = .error (.thrown .mochaDocumentError)) ∧
    ((∃ fuel t, MochaDocument.init g fuel name ⟨0, bytes⟩ = .error (.trap t)) ↔
      Broken g name ⟨0, bytes⟩) := by
  refine ⟨fun fuel e => init_thrown, ?_, ?_, trap_iff_broken⟩
  · intro hmagic fuel
    have hmacho : ∀ b, Data.starts ⟨0, bytes⟩ (machoMagic b) = false := by
      intro b
      rw [← Bool.not_eq_true]
      exact fun h => hmagic (.inr (.inr ⟨b, h⟩))
    rw [init_succ, contents, if_neg (fun h => hmagic (.inl h)),
      if_neg (fun h => hmagic (.inr (.inl h))), machoMetaData_thrown hmacho]
    rfl
  · intro hendless hbroken hopens
    by_contra hnot
    refine hendless (neverFinishes_endless rfl ?_)
    intro fuel
    by_contra hfuel
    refine hnot ⟨fuel, fun more hle => ?_⟩
    rw [(init_mono hle _).eq_of_ne hfuel]
    cases hinit : MochaDocument.init g fuel name ⟨0, bytes⟩ with
    | ok document => exact absurd (opens_of_init hinit).2.2 (hopens _)
    | error failure =>
      cases failure with
      | thrown e => rw [init_thrown hinit]
      | trap t => exact absurd (broken_of_trap hinit) hbroken
      | unfinished => exact absurd hinit hfuel

theorem init_rejects_text :
    MochaDocument.init asciiSegmentation 1 "a.txt" ⟨0, utf8 "plain text"⟩ =
      .error (.thrown .mochaDocumentError) :=
  (init_rejects asciiSegmentation "a.txt" (utf8 "plain text")).2.1 (by decide +kernel) 0

/-- The first bytes of a Java class file: the number of slices is its version, and the first slice
lies outside the file. -/
def javaClassFile : List UInt8 :=
  FatBinary.magic ++ [0x00, 0x00, 0x00, 0x34, 0x00, 0x1d, 0x0a, 0x00, 0x06, 0x00, 0x0f, 0x09, 0x00,
    0x10, 0x00, 0x11, 0x08, 0x00, 0x12, 0x0a, 0x00, 0x13, 0x00, 0x14]

theorem javaClassFile_traps :
    MochaDocument.init asciiSegmentation 1 "A.class" ⟨0, javaClassFile⟩ =
      .error (.trap .fatalError) := by
  decide +kernel

end Mocha
