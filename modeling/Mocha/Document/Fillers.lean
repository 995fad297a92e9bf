import Mocha.Document.Encoding

/-!
# Filler bytes between the members

In the format of an archive the members begin at even offsets: a member whose data ends at an odd one is
followed by a newline that its size does not count. `UnixArchive.init` has no step for it.

**`written_opens_iff`**: a written archive opens as its thin files iff it needs no filler, that is, iff
all sizes are even. Behind an odd member the loop reads a header from the filler on: one byte early, so
that the two bytes it takes for the ending are the last digit of the size and a backtick.
-/

namespace Mocha

open Lib DataShifter

/-- What a member with the name `name` contains. -/
inductive MemberContent (name : String) where
  | symdef (bytes : List UInt8) (suffix : String) (name_eq : name = "__.SYMDEF" ++ suffix)
      (ascii : ∀ c ∈ suffix.toList, c.toNat < 128)
  | macho (file : ThinFile) (notSymdef : ¬ "__.SYMDEF".toList <+: name.toList)

def MemberContent.bytes {name : String} : MemberContent name → List UInt8
  | .symdef bytes _ _ _ => bytes
  | .macho file _ => file.bytes

/-- A member of any size. -/
structure ArchiveMember where
  header : MemberHeader
  content : MemberContent header.name
  size_lt : header.size content.bytes < 10 ^ 10

namespace ArchiveMember

/-- The size in the header. -/
def size (m : ArchiveMember) : Nat := m.header.size m.content.bytes

/-- The header and the data. -/
def encode (m : ArchiveMember) : List UInt8 := m.header.encode m.content.bytes

/-- The newline behind data that ends at an odd offset. The header has 60 bytes and begins at an even
offset, as what comes before it has an even number of bytes, so the size decides. -/
def filler (m : ArchiveMember) : List UInt8 := if m.size % 2 = 0 then [] else [0x0A]

/-- What the member adds to the list: a table of symbols adds nothing. -/
def machoMetaData? (m : ArchiveMember) : Option MachoMetaData :=
  match m.content with
  | .symdef _ _ _ _ => none
  | .macho file _ => some (file.machoMetaData m.header.name)

end ArchiveMember

/-- An archive as it is written. -/
def writtenArchive (ms : List ArchiveMember) : List UInt8 :=
  UnixArchive.magic ++ ms.flatMap fun m => m.encode ++ m.filler

section Loop

variable {g : Segmentation} {d : Data} {k : Nat}

/-- One turn over a member leaves the cursor behind its data. -/
theorem ArchiveMember.nextMember (m : ArchiveMember) (hd : d.Holds k m.encode) :
    UnixArchive.nextMember g (cursor d k) =
      .ok (m.machoMetaData?, cursor d (k + m.encode.length)) := by
  obtain ⟨header, content, size_lt⟩ := m
  cases content with
  | symdef bytes suffix name_eq ascii => exact nextMember_symdef name_eq ascii size_lt hd
  | macho file notSymdef => exact nextMember_macho notSymdef size_lt hd

theorem ArchiveMember.shiftable (m : ArchiveMember) (hd : d.Holds k m.encode) :
    (cursor d k).shiftable = true := by
  refine shiftable_of_holds hd ?_
  rw [ArchiveMember.encode, MemberHeader.length_encode m.size_lt]
  omega

/-- **The loop over members of even sizes**: one turn for each. -/
theorem written_turns (ms : List ArchiveMember) (heven : ∀ m ∈ ms, m.size % 2 = 0)
    (hd : d.Holds k (ms.flatMap fun m => m.encode ++ m.filler)) :
    (UnixArchive.memberLoop g).Turns (cursor d k) (ms.map ArchiveMember.machoMetaData?)
      (cursor d (k + (ms.flatMap fun m => m.encode ++ m.filler).length)) := by
  have hwritten : ∀ m ∈ ms, m.encode ++ m.filler = m.encode := by
    intro m hm
    rw [ArchiveMember.filler, if_pos (heven m hm), List.append_nil]
  refine members_turns ms (fun m hm => ?_) (fun m hm k hk => ?_) hd
  · rw [hwritten m hm, ArchiveMember.encode, MemberHeader.length_encode m.size_lt]
    omega
  · rw [hwritten m hm] at hk ⊢
    exact m.nextMember hk

/-- **No member is read from a filler on.** -/
theorem nextMember_filler {ms : List ArchiveMember} {r : Option MachoMetaData × DataShifter}
    (hd : d.Holds (k + 1) (ms.flatMap fun m => m.encode ++ m.filler))
    (hend : k + 1 + (ms.flatMap fun m => m.encode ++ m.filler).length = d.count) :
    UnixArchive.nextMember g (cursor d k) ≠ .ok r := by
  obtain ⟨member, t⟩ := r
  intro h
  obtain ⟨next, hmember, -⟩ := UnixArchive.nextMember_eq_ok.mp h
  obtain ⟨fileID, size, htext⟩ := hmember.headerText
  have hfits := htext.fits
  cases ms with
  | nil =>
    rw [List.flatMap_nil, List.length_nil] at hend
    omega
  | cons m ms =>
    rw [List.flatMap_cons, List.append_assoc, Data.holds_append] at hd
    obtain ⟨-, -, hending, -, -⟩ := MemberHeader.holds_encode m.size_lt hd.1
    -- the byte 59 behind the filler is the backtick of the header, and the newline of the misread one
    have hwritten : d.Holds (k + 1 + 58) ([0x60] ++ [0x0A]) := hending
    have hread : d.Holds (k + 58) ([0x60] ++ [0x0A]) := ⟨hfits, utf8String_eq_some.mp htext.ending⟩
    have hbacktick : (d.window (k + 59) 1).bytes = [0x60] := by
      rw [show k + 59 = k + 1 + 58 by omega]
      exact (Data.holds_append.mp hwritten).1.2
    have hnewline : (d.window (k + 59) 1).bytes = [0x0A] := (Data.holds_append.mp hread).2.2
    rw [hbacktick] at hnewline
    cases hnewline

/-- **The loop fails behind the first member of odd size.** -/
theorem written_turns_fail (ms : List ArchiveMember) (hodd : ¬ ∀ m ∈ ms, m.size % 2 = 0)
    (hd : d.Holds k (ms.flatMap fun m => m.encode ++ m.filler))
    (hend : k + (ms.flatMap fun m => m.encode ++ m.filler).length = d.count) :
    ∃ as u e, (UnixArchive.memberLoop g).Turns (cursor d k) as u ∧ u.shiftable = true ∧
      UnixArchive.nextMember g u = .error e := by
  induction ms generalizing k with
  | nil => exact absurd (fun m hm => nomatch hm) hodd
  | cons m ms ih =>
    rw [List.flatMap_cons, List.append_assoc] at hd hend
    rw [List.length_append, ← Nat.add_assoc] at hend
    rw [Data.holds_append] at hd
    by_cases heven : m.size % 2 = 0
    · have hfiller : m.filler = [] := if_pos heven
      rw [hfiller, List.nil_append] at hd hend
      have hrest : ¬ ∀ m' ∈ ms, m'.size % 2 = 0 := fun h => hodd (List.forall_mem_cons.mpr ⟨heven, h⟩)
      obtain ⟨as, u, e, hturns, hu, hfail⟩ := ih hrest hd.2 hend
      exact ⟨_ :: as, u, e, .cons (m.shiftable hd.1) (m.nextMember hd.1) hturns, hu, hfail⟩
    · have hfiller : m.filler = [0x0A] := if_neg heven
      rw [hfiller, Data.holds_append] at hd
      rw [hfiller, List.length_append, ← Nat.add_assoc] at hend
      refine ⟨[m.machoMetaData?], cursor d (k + m.encode.length), ?_⟩
      cases hnext : UnixArchive.nextMember g (cursor d (k + m.encode.length)) with
      | ok r => exact absurd hnext (nextMember_filler hd.2.2 hend)
      | error e =>
        exact ⟨e, .cons (m.shiftable hd.1) (m.nextMember hd.1) (.nil _),
          shiftable_of_holds hd.2.1 Nat.one_pos, rfl⟩

end Loop

/-! ## Opening the archive -/

section Archive

variable {g : Segmentation} {d : Data} {ms : List ArchiveMember}

/-- The members follow the magic. -/
theorem writtenArchive_members (hd : d.bytes = writtenArchive ms) :
    d.starts UnixArchive.magic = true ∧ d.Holds 8 (ms.flatMap fun m => m.encode ++ m.filler) ∧
      8 + (ms.flatMap fun m => m.encode ++ m.filler).length = d.count := by
  refine ⟨?_, (Data.holds_append.mp (Data.holds_of_eq hd)).2, ?_⟩
  · rw [Data.starts, List.isPrefixOf_iff_prefix, hd]
    exact List.prefix_append _ _
  · rw [Data.count, hd, writtenArchive, List.length_append]
    rfl

theorem written_opens (hd : d.bytes = writtenArchive ms) (heven : ∀ m ∈ ms, m.size % 2 = 0) :
    ∃ bound, ∀ fuel ≥ bound,
      UnixArchive.init g fuel d = .ok ⟨ms.filterMap ArchiveMember.machoMetaData?⟩ := by
  obtain ⟨hstarts, hmembers, hend⟩ := writtenArchive_members hd
  have hturns := written_turns (g := g) ms heven hmembers
  rw [hend] at hturns
  obtain ⟨bound, hrun⟩ := Walk.exists_run_iff.mpr ⟨hturns, not_shiftable_end d⟩
  refine ⟨bound, fun fuel hle => ?_⟩
  have hrun : (UnixArchive.memberLoop g).run fuel (UnixArchive.firstMember d) = _ := Walk.run_mono hrun hle
  rw [UnixArchive.init, if_pos hstarts, hrun]
  simp only [List.reduceOption, List.filterMap_map, Function.id_comp]

theorem written_fails (hd : d.bytes = writtenArchive ms) (hodd : ¬ ∀ m ∈ ms, m.size % 2 = 0) :
    ∃ bound e, ∀ fuel ≥ bound, UnixArchive.init g fuel d = .error e := by
  obtain ⟨hstarts, hmembers, hend⟩ := writtenArchive_members hd
  obtain ⟨as, u, e, hfails⟩ := written_turns_fail (g := g) ms hodd hmembers hend
  obtain ⟨bound, hrun⟩ := Walk.exists_run_error_iff.mpr ⟨as, u, hfails⟩
  refine ⟨bound, e, fun fuel hle => ?_⟩
  have hrun : (UnixArchive.memberLoop g).run fuel (UnixArchive.firstMember d) = _ := Walk.run_mono hrun hle
  rw [UnixArchive.init, if_pos hstarts, hrun]

/-- An archive with a member of odd size does not open, whatever is expected of it. -/
theorem written_not_opens (hd : d.bytes = writtenArchive ms) (hodd : ¬ ∀ m ∈ ms, m.size % 2 = 0)
    (archive : UnixArchive) :
    ¬ ∃ bound, ∀ fuel ≥ bound, UnixArchive.init g fuel d = .ok archive := by
  rintro ⟨bound, hopens⟩
  obtain ⟨enough, e, hfails⟩ := written_fails (g := g) hd hodd
  have hfail := hfails (max bound enough) (Nat.le_max_right bound enough)
  rw [hopens _ (Nat.le_max_left bound enough)] at hfail
  cases hfail

end Archive

/-- **A written archive opens as its thin files, in order and with their names and bytes, iff the sizes
of its members are even.** -/
theorem written_opens_iff (g : Segmentation) (startIndex : Nat) (ms : List ArchiveMember) :
    (∃ bound, ∀ fuel ≥ bound, UnixArchive.init g fuel ⟨startIndex, writtenArchive ms⟩ =
      .ok ⟨ms.filterMap ArchiveMember.machoMetaData?⟩) ↔ ∀ m ∈ ms, m.size % 2 = 0 := by
  refine ⟨fun hopens => ?_, written_opens rfl⟩
  by_contra hodd
  exact written_not_opens rfl hodd _ hopens

/-- A thin file of 29 bytes. -/
def oddThin : ThinFile where
  is64Bit := false
  bytes := machoMagic false ++ List.replicate 25 0
  magic := List.prefix_append _ _
  full := by decide

theorem plainName_short : PlainName "a.o" := ⟨by decide, by decide⟩

theorem fits_short : NameStyle.short.Fits "a.o" := by decide +kernel

theorem length_blankInfo : (List.replicate 32 (0x20 : UInt8)).length = 32 := rfl

theorem notSymdef_short : ¬ "__.SYMDEF".toList <+: "a.o".toList := by decide

/-- A member of odd size. -/
def oddMember : ArchiveMember where
  header := ⟨"a.o", .short, List.replicate 32 0x20, plainName_short, fits_short, length_blankInfo⟩
  content := .macho oddThin notSymdef_short
  size_lt := by decide +kernel

/-- The filler behind the only member is not a header. -/
theorem oddMember_not_opened :
    ¬ ∃ bound, ∀ fuel ≥ bound, UnixArchive.init asciiSegmentation fuel ⟨0, writtenArchive [oddMember]⟩ =
      .ok ⟨[.ofThin "a.o" false ⟨0, oddThin.bytes⟩]⟩ := by
  refine written_not_opens rfl (fun heven => ?_) _
  have hsize : oddMember.size % 2 = 1 := by decide +kernel
  rw [heven oddMember (List.mem_singleton_self _)] at hsize
  cases hsize

end Mocha
