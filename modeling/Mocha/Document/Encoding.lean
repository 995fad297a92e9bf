import Mathlib.Data.List.ReduceOption
import Mocha.Document.Opening
import Mocha.Helpers.Layout

/-!
# Container files as they are written

A document is a thin file, an archive of thin files or a fat file of documents. `Document.Encodes d bs`
says that the bytes `bs` are a way of writing `d`: the slices of a fat file may lie anywhere in it, so
a document has many encodings. `Document.leaves` are its thin files from left to right, each with the
name it is shown under.

Members of an archive stand one right after the other: their contents have even sizes, so no filler
byte is written between them.

**`init_encodes`**: opening an encoding of a document gives its leaves.
-/

namespace Mocha

open Lib DataShifter

/-! ## Archives -/

/-- A thin file: a magic number and at least a whole header. -/
structure ThinFile where
  is64Bit : Bool
  bytes : List UInt8
  magic : machoMagic is64Bit <+: bytes
  full : machoHeaderSize is64Bit ≤ bytes.length

/-- Where the name of a member stands: in its header, or in front of its content with NULs after
it. -/
inductive NameStyle where
  | short
  | extended (padding : Nat)

/-- What the header has for the name. -/
def NameStyle.field (name : String) : NameStyle → String
  | .short => name
  | .extended padding => "#1/" ++ decimal ((utf8 name).length + padding)

/-- What stands in front of the content. -/
def NameStyle.front (name : String) : NameStyle → List UInt8
  | .short => []
  | .extended padding => utf8 name ++ List.replicate padding 0

/-- A name that can be written so: a short one fits its field and is not read as an extended one. -/
def NameStyle.Fits (name : String) : NameStyle → Prop
  | .short => (utf8 name).length ≤ 16 ∧ ¬ "#1/".toList <+: name.toList
  | .extended padding => 0 < (utf8 name).length + padding

instance (name : String) : (style : NameStyle) → Decidable (style.Fits name)
  | .short => inferInstanceAs (Decidable (_ ∧ _))
  | .extended _ => inferInstanceAs (Decidable (0 < _))

/-- The header of a member; `info` is its time, its owner and group, and its mode. -/
structure MemberHeader where
  name : String
  style : NameStyle
  info : List UInt8
  plain : PlainName name
  fits : style.Fits name
  info_length : info.length = 32

namespace MemberHeader

/-- The bytes in front of the content. -/
def front (h : MemberHeader) : List UInt8 := h.style.front h.name

/-- The size the header has for a content: it includes an extended name. -/
def size (h : MemberHeader) (content : List UInt8) : Nat := h.front.length + content.length

/-- A member. -/
def encode (h : MemberHeader) (content : List UInt8) : List UInt8 :=
  textField 16 (h.style.field h.name) ++ (h.info ++ (textField 10 (decimal (h.size content)) ++
    ([0x60, 0x0A] ++ (h.front ++ content))))

end MemberHeader

/-- The table of symbols of an archive. -/
structure SymdefMember where
  header : MemberHeader
  content : List UInt8
  suffix : String
  name_eq : header.name = "__.SYMDEF" ++ suffix
  ascii : ∀ c ∈ suffix.toList, c.toNat < 128
  size_lt : header.size content < 10 ^ 10
  even : content.length % 2 = 0

/-- A thin file in an archive. -/
structure MachoMember where
  header : MemberHeader
  content : ThinFile
  notSymdef : ¬ "__.SYMDEF".toList <+: header.name.toList
  size_lt : header.size content.bytes < 10 ^ 10
  even : content.bytes.length % 2 = 0

def SymdefMember.encode (m : SymdefMember) : List UInt8 := m.header.encode m.content

def MachoMember.encode (m : MachoMember) : List UInt8 := m.header.encode m.content.bytes

/-- What a thin file is opened as. -/
def ThinFile.machoMetaData (name : String) (f : ThinFile) : MachoMetaData :=
  .ofThin name f.is64Bit ⟨0, f.bytes⟩

namespace MemberHeader

variable {h : MemberHeader} {content : List UInt8} {d : Data} {k : Nat}

theorem length_field (hsize : h.size content < 10 ^ 10) :
    (utf8 (h.style.field h.name)).length ≤ 16 := by
  have hfits := h.fits
  unfold size front at hsize
  cases hstyle : h.style with
  | short =>
    rw [hstyle] at hfits
    exact hfits.1
  | extended padding =>
    rw [hstyle, NameStyle.front, List.length_append, List.length_replicate] at hsize
    have hdigits : (utf8 (decimal ((utf8 h.name).length + padding))).length ≤ 10 :=
      (length_decimal_le_iff (by decide)).mpr (by omega)
    have hmark : (utf8 "#1/").length = 3 := by decide
    rw [NameStyle.field, utf8_append, List.length_append, hmark]
    omega

/-- The pieces of a written member. -/
theorem holds_encode (hsize : h.size content < 10 ^ 10) (hd : d.Holds k (h.encode content)) :
    d.Holds k (textField 16 (h.style.field h.name)) ∧
      d.Holds (k + 48) (textField 10 (decimal (h.size content))) ∧
      d.Holds (k + 58) [0x60, 0x0A] ∧ d.Holds (k + 60) h.front ∧
      d.Holds (k + 60 + h.front.length) content := by
  have hdigits : (utf8 (decimal (h.size content))).length ≤ 10 :=
    (length_decimal_le_iff (by decide)).mpr hsize
  unfold encode at hd
  simp only [Data.holds_append, length_textField (length_field hsize), length_textField hdigits,
    h.info_length, List.length_cons, List.length_nil, Nat.add_assoc, Nat.reduceAdd] at hd
  obtain ⟨hfield, -, hcount, hending, hfront, hcontent⟩ := hd
  exact ⟨hfield, hcount, hending, hfront, by rwa [Nat.add_assoc]⟩

theorem length_encode (hsize : h.size content < 10 ^ 10) :
    (h.encode content).length = 60 + h.size content := by
  have hdigits : (utf8 (decimal (h.size content))).length ≤ 10 :=
    (length_decimal_le_iff (by decide)).mpr hsize
  unfold encode
  simp only [List.length_append, length_textField (length_field hsize), length_textField hdigits,
    h.info_length, List.length_cons, List.length_nil]
  unfold size
  omega

theorem headerText (hsize : h.size content < 10 ^ 10) (hd : d.Holds k (h.encode content)) :
    HeaderText d k (h.style.field h.name ++
      spaces (16 - (utf8 (h.style.field h.name)).length)) (h.size content) := by
  obtain ⟨hfield, hcount, hending, -, hcontent⟩ := holds_encode hsize hd
  have hle := hcontent.1
  have hdigits : (utf8 (decimal (h.size content))).length ≤ 10 :=
    (length_decimal_le_iff (by decide)).mpr hsize
  refine ⟨by omega, hfield.text (length_field hsize), ⟨_, hcount.text hdigits, ?_⟩,
    utf8String_eq_some.mpr hending.2⟩
  rw [spaceRemoved_spaced (plainName_decimal _), parseInt_decimal (by omega)]

/-- **The name of a written member reads back.** -/
theorem nameText (g : Segmentation) (hsize : h.size content < 10 ^ 10)
    (hd : d.Holds k (h.encode content)) :
    NameText g d k (h.style.field h.name ++ spaces (16 - (utf8 (h.style.field h.name)).length))
      h.name h.front.length := by
  obtain ⟨hfield, -, -, hfront, hcontent⟩ := holds_encode hsize hd
  have hle := hcontent.1
  have hfits := h.fits
  cases hstyle : h.style with
  | short =>
    rw [hstyle] at hfits
    have hprefix : g.hasPrefix (h.name ++ spaces (16 - (utf8 h.name).length)) "#1/" = false := by
      refine hasPrefix_eq_false g fun hp => hfits.2 ?_
      rw [String.toList_append, toList_spaces] at hp
      exact prefix_of_prefix_spaced (by decide) hp
    have hempty : h.front = [] := by
      rw [front, hstyle]
      rfl
    have hname := NameText.short (d := d) (k := k) hprefix
    rw [spaceRemoved_spaced h.plain] at hname
    rwa [NameStyle.field, hempty]
  | extended padding =>
    rw [hstyle] at hfits hfield
    have hbytes : h.front = utf8 h.name ++ List.replicate padding 0 := by
      rw [front, hstyle]
      rfl
    have hlength : h.front.length = (utf8 h.name).length + padding := by
      rw [hbytes, List.length_append, List.length_replicate]
    have hlt : h.front.length < 10 ^ 10 := Nat.lt_of_le_of_lt (Nat.le_add_right _ _) hsize
    rw [NameStyle.field, ← hlength] at hfield ⊢
    have hprefix : g.hasPrefix (("#1/" ++ decimal h.front.length) ++
        spaces (16 - (utf8 ("#1/" ++ decimal h.front.length)).length)) "#1/" = true := by
      rw [String.append_assoc]
      refine hasPrefix_append g fun c hc => ?_
      rw [String.toList_append, toList_spaces, List.mem_append] at hc
      rcases hc with hc | hc
      · exact decimal_ascii c hc
      · rw [List.eq_of_mem_replicate hc]
        decide
    have hnumber : (utf8 (decimal h.front.length)).length ≤ 13 :=
      (length_decimal_le_iff (by decide)).mpr (by omega)
    have hparse : parseInt (spaceRemoved
        (decimal h.front.length ++ spaces (13 - (utf8 (decimal h.front.length)).length))) =
        some (h.front.length : Int) := by
      rw [spaceRemoved_spaced (plainName_decimal _), parseInt_decimal (by omega)]
    rw [textField_append, Data.holds_append] at hfield
    have hname := NameText.extended hprefix (hlength ▸ hfits) (hfield.2.text hnumber) hparse (by omega)
      (utf8String_padded (hfront.2.trans hbytes))
    rwa [spaceRemoved_padded h.plain] at hname

end MemberHeader

section Members

variable {g : Segmentation} {d : Data} {k : Nat}

theorem cursor_encode {h : MemberHeader} {content : List UInt8} (hsize : h.size content < 10 ^ 10) :
    (⟨d, (k : Int) + 60 + (h.size content : Nat)⟩ : DataShifter) =
      cursor d (k + (h.encode content).length) := by
  rw [MemberHeader.length_encode hsize, cursor]
  congr 1
  omega

/-- The loop steps over the table of symbols. -/
theorem nextMember_symdef {h : MemberHeader} {content : List UInt8} {suffix : String}
    (hname : h.name = "__.SYMDEF" ++ suffix) (hascii : ∀ c ∈ suffix.toList, c.toNat < 128)
    (hsize : h.size content < 10 ^ 10) (hd : d.Holds k (h.encode content)) :
    UnixArchive.nextMember g (cursor d k) = .ok (none, cursor d (k + (h.encode content).length)) := by
  have hprefix : g.hasPrefix h.name "__.SYMDEF" = true := by
    rw [hname]
    exact hasPrefix_append g hascii
  exact UnixArchive.nextMember_eq_ok.mpr ⟨_, .symdef (MemberHeader.headerText hsize hd)
    (MemberHeader.nameText g hsize hd) hprefix, (cursor_encode hsize).symm⟩

theorem ThinFile.length_pos (f : ThinFile) : 0 < f.bytes.length :=
  Nat.lt_of_lt_of_le (by cases f.is64Bit <;> decide) f.full

/-- The loop adds the thin file of a member. -/
theorem nextMember_macho {h : MemberHeader} {f : ThinFile}
    (hname : ¬ "__.SYMDEF".toList <+: h.name.toList) (hsize : h.size f.bytes < 10 ^ 10)
    (hd : d.Holds k (h.encode f.bytes)) :
    UnixArchive.nextMember g (cursor d k) =
      .ok (some (f.machoMetaData h.name), cursor d (k + (h.encode f.bytes).length)) := by
  obtain ⟨-, -, -, -, hcontent⟩ := MemberHeader.holds_encode hsize hd
  have hmagic : (d.window (k + 60 + h.front.length) f.bytes.length).starts (machoMagic f.is64Bit) =
      true := by
    rw [Data.starts, hcontent.2]
    exact List.isPrefixOf_iff_prefix.mpr f.magic
  have hmember := UnixArchive.MemberAt.macho (MemberHeader.headerText hsize hd)
    (MemberHeader.nameText g hsize hd) (hasPrefix_eq_false g hname) f.length_pos hcontent.1 f.is64Bit
    hmagic f.full
  have hrebased : (d.window (k + 60 + h.front.length) f.bytes.length).rebased = ⟨0, f.bytes⟩ := by
    rw [Data.rebased, hcontent.2]
  rw [hrebased] at hmember
  exact UnixArchive.nextMember_eq_ok.mpr ⟨_, hmember, (cursor_encode hsize).symm⟩

theorem shiftable_of_holds {bs : List UInt8} (hd : d.Holds k bs) (hpos : 0 < bs.length) :
    (cursor d k).shiftable = true := by
  have hle := hd.1
  rw [shiftable_cursor, decide_eq_true_eq]
  omega

/-- **The loop over written members**: one turn for each, if a turn over one of them leads behind
it. -/
theorem members_turns {α : Type} {encode : α → List UInt8} {result : α → Option MachoMetaData}
    (ms : List α) (hpos : ∀ m ∈ ms, 0 < (encode m).length)
    (hnext : ∀ m ∈ ms, ∀ k, d.Holds k (encode m) →
      UnixArchive.nextMember g (cursor d k) = .ok (result m, cursor d (k + (encode m).length)))
    (hd : d.Holds k (ms.flatMap encode)) :
    (UnixArchive.memberLoop g).Turns (cursor d k) (ms.map result)
      (cursor d (k + (ms.flatMap encode).length)) := by
  induction ms generalizing k with
  | nil => exact .nil _
  | cons m ms ih =>
    rw [List.forall_mem_cons] at hpos hnext
    rw [List.flatMap_cons, Data.holds_append] at hd
    rw [List.flatMap_cons, List.length_append, ← Nat.add_assoc]
    exact .cons (shiftable_of_holds hd.1 hpos.1) (hnext.1 k hd.1) (ih hpos.2 hnext.2 hd.2)

theorem memberLoop_turns (ms : List MachoMember) (hd : d.Holds k (ms.flatMap MachoMember.encode)) :
    (UnixArchive.memberLoop g).Turns (cursor d k)
      (ms.map fun m => some (m.content.machoMetaData m.header.name))
      (cursor d (k + (ms.flatMap MachoMember.encode).length)) := by
  refine members_turns ms (fun m _ => ?_) (fun m _ k hm => ?_) hd
  · rw [MachoMember.encode, MemberHeader.length_encode m.size_lt]
    omega
  · exact nextMember_macho m.notSymdef m.size_lt hm

end Members

/-! ## Documents -/

/-- An entry of the table of a fat file. -/
structure ArchEntry where
  cpu : UInt32
  cpuSub : UInt32
  offset : UInt32
  size : UInt32
  align : UInt32

/-- A big-endian 32-bit word. -/
def bigWord (x : UInt32) : List UInt8 := beBytes 4 x.toNat

def ArchEntry.encode (a : ArchEntry) : List UInt8 :=
  bigWord a.cpu ++ (bigWord a.cpuSub ++ (bigWord a.offset ++ (bigWord a.size ++ bigWord a.align)))

mutual

/-- What a file can contain. -/
inductive Document where
  | thin (file : ThinFile)
  | archive (symdef : Option SymdefMember) (members : List MachoMember)
  | fat (slices : Slices)

/-- The slices of a fat file. -/
inductive Slices where
  | nil
  | cons (arch : ArchEntry) (document : Document) (rest : Slices)

end

/-- The number of slices. -/
def Slices.count : Slices → Nat
  | .nil => 0
  | .cons _ _ rest => rest.count + 1

/-- The table of a fat file. -/
def Slices.table : Slices → List UInt8
  | .nil => []
  | .cons arch _ rest => arch.encode ++ rest.table

mutual

/-- `bs` is a way of writing the document. -/
def Document.Encodes : Document → List UInt8 → Prop
  | .thin file, bs => bs = file.bytes
  | .archive symdef members, bs =>
    bs = UnixArchive.magic ++ ((symdef.toList.flatMap SymdefMember.encode) ++
      members.flatMap MachoMember.encode)
  | .fat slices, bs => slices.count < 2 ^ 32 ∧
    FatBinary.magic ++ (beBytes 4 slices.count ++ slices.table) <+: bs ∧ slices.Encodes bs

/-- Each slice lies in the file `bs` where its entry says. -/
def Slices.Encodes : Slices → List UInt8 → Prop
  | .nil, _ => True
  | .cons arch document rest, bs => arch.offset.toNat + arch.size.toNat ≤ bs.length ∧
    document.Encodes ((bs.drop arch.offset.toNat).take arch.size.toNat) ∧ rest.Encodes bs

end

mutual

/-- The thin files of a document from left to right, each with the name it is shown under. -/
def Document.leaves (name : String) : Document → List (String × ThinFile)
  | .thin file => [(name, file)]
  | .archive _ members => members.map fun m => (m.header.name, m.content)
  | .fat slices => slices.leaves name

/-- The thin files of the slices. -/
def Slices.leaves (name : String) : Slices → List (String × ThinFile)
  | .nil => []
  | .cons _ document rest => document.leaves name ++ rest.leaves name

end

/-! ## Opening what was written -/

section Opening

variable {g : Segmentation} {name : String} {bs : List UInt8} {k : Nat}

theorem holds_of_prefix {p : List UInt8} (h : p <+: bs) : (⟨0, bs⟩ : Data).Holds 0 p := by
  obtain ⟨rest, rfl⟩ := h
  exact (Data.holds_append.mp (Data.holds_of_eq rfl)).1

theorem Data.Holds.bigWord {d : Data} {x : UInt32} (h : d.Holds k (bigWord x)) :
    d.bigWordAt k = x.toNat := by
  have hbytes := h.2
  rw [Mocha.bigWord, length_beBytes] at hbytes
  rw [Data.bigWordAt, hbytes, beNat_beBytes (Nat.lt_of_lt_of_le x.toNat_lt (by decide))]

/-- What an entry of the table says. -/
theorem ArchEntry.holds_encode {d : Data} {a : ArchEntry} (h : d.Holds k a.encode) :
    k + 20 ≤ d.count ∧ d.bigWordAt (k + 8) = a.offset.toNat ∧
      d.bigWordAt (k + 12) = a.size.toNat := by
  have hle := h.1
  unfold ArchEntry.encode at h hle
  simp only [Data.holds_append, bigWord, length_beBytes, List.length_append, Nat.add_assoc,
    Nat.reduceAdd] at h hle
  obtain ⟨-, -, hoffset, hsize, -⟩ := h
  exact ⟨hle, hoffset.bigWord, hsize.bigWord⟩

/-- No document is written with no bytes. -/
theorem Document.Encodes.length_pos {document : Document} (h : document.Encodes bs) :
    0 < bs.length := by
  cases document with
  | thin file =>
    rw [show bs = file.bytes from h]
    exact file.length_pos
  | archive symdef members =>
    rw [show bs = _ from h, List.length_append]
    exact Nat.lt_of_lt_of_le (by decide) (Nat.le_add_right UnixArchive.magic.length _)
  | fat slices =>
    have hle := h.2.1.length_le
    rw [List.length_append] at hle
    exact Nat.lt_of_lt_of_le (by decide) (Nat.le_trans (Nat.le_add_right FatBinary.magic.length _) hle)

/-- The turns over the whole of an archive. -/
theorem archive_turns {d : Data} (symdef : Option SymdefMember) (members : List MachoMember)
    (hd : d.Holds k (symdef.toList.flatMap SymdefMember.encode ++
      members.flatMap MachoMember.encode)) :
    ∃ first : List (Option MachoMetaData), first.reduceOption = [] ∧
      (UnixArchive.memberLoop g).Turns (cursor d k)
        (first ++ members.map fun m => some (m.content.machoMetaData m.header.name))
        (cursor d (k + (symdef.toList.flatMap SymdefMember.encode ++
          members.flatMap MachoMember.encode).length)) := by
  cases symdef with
  | none =>
    rw [Option.toList_none, List.flatMap_nil, List.nil_append] at hd ⊢
    exact ⟨[], rfl, memberLoop_turns members hd⟩
  | some m =>
    rw [Option.toList_some, List.flatMap_singleton, Data.holds_append] at hd
    have hpos : 0 < m.encode.length := by
      rw [SymdefMember.encode, MemberHeader.length_encode m.size_lt]
      omega
    rw [Option.toList_some, List.flatMap_singleton, List.length_append, ← Nat.add_assoc]
    exact ⟨[none], rfl, .cons (shiftable_of_holds hd.1 hpos)
      (nextMember_symdef m.name_eq m.ascii m.size_lt hd.1) (memberLoop_turns members hd.2)⟩

/-- An archive opens as its members. -/
theorem opens_archive (symdef : Option SymdefMember) (members : List MachoMember)
    (h : (Document.archive symdef members).Encodes bs) :
    Opens g name ⟨0, bs⟩ (members.map fun m => m.content.machoMetaData m.header.name) := by
  have hbytes : bs = _ := h
  have hall := Data.holds_of_eq (d := ⟨0, bs⟩) hbytes
  rw [Data.holds_append] at hall
  obtain ⟨first, hfirst, hturns⟩ := archive_turns (g := g) symdef members hall.2
  have hend : 0 + UnixArchive.magic.length + (symdef.toList.flatMap SymdefMember.encode ++
      members.flatMap MachoMember.encode).length = bs.length := by
    rw [Nat.zero_add, ← List.length_append, ← hbytes]
  rw [hend] at hturns
  have hstarts : (⟨0, bs⟩ : Data).starts UnixArchive.magic = true := by
    rw [Data.starts, List.isPrefixOf_iff_prefix, hbytes]
    exact List.prefix_append _ _
  have hmembers : (first ++ members.map fun m =>
      some (m.content.machoMetaData m.header.name)).reduceOption =
      members.map fun m => m.content.machoMetaData m.header.name := by
    rw [List.reduceOption_append, hfirst, List.nil_append, List.reduceOption, List.filterMap_map,
      ← List.filterMap_eq_map]
    rfl
  rw [← hmembers]
  exact .archive hstarts hturns (not_shiftable_end _)

mutual

/-- A written document opens as its leaves. -/
theorem Document.Encodes.opens : (document : Document) → {bs : List UInt8} → document.Encodes bs →
    Opens g name ⟨0, bs⟩ ((document.leaves name).map fun l => l.2.machoMetaData l.1)
  | .thin file, bs, h => by
    rw [show bs = file.bytes from h]
    exact .thin file.is64Bit (List.isPrefixOf_iff_prefix.mpr file.magic) file.full
  | .archive symdef members, bs, h => by
    rw [Document.leaves, List.map_map]
    exact opens_archive symdef members h
  | .fat slices, bs, h => by
    obtain ⟨hcount, hprefix, hslices⟩ := h
    have hd := holds_of_prefix hprefix
    rw [Data.holds_append, Data.holds_append] at hd
    obtain ⟨-, hnumber, htable⟩ := hd
    have hstarts : (⟨0, bs⟩ : Data).starts FatBinary.magic = true :=
      List.isPrefixOf_iff_prefix.mpr ((List.prefix_append _ _).trans hprefix)
    refine .fat hstarts (numberOfArchs_eq_ok.mpr ⟨?_, ?_⟩)
      (Slices.Encodes.opensArchs slices 0 htable hslices)
    · have hle := hnumber.1
      rwa [length_beBytes] at hle
    · have hword := hnumber.2
      rw [length_beBytes] at hword
      exact (congrArg beNat hword).trans (beNat_beBytes (by omega)) |>.symm

/-- So do its slices. -/
theorem Slices.Encodes.opensArchs : (slices : Slices) → {bs : List UInt8} → (index : Nat) →
    (⟨0, bs⟩ : Data).Holds (8 + index * 20) slices.table → slices.Encodes bs →
    OpensArchs g name ⟨0, bs⟩ slices.count index
      ((slices.leaves name).map fun l => l.2.machoMetaData l.1)
  | .nil, bs, index, _, _ => .nil _ index
  | .cons arch document rest, bs, index, htable, h => by
    obtain ⟨hin, hdocument, hrest⟩ := h
    rw [Slices.table, Data.holds_append] at htable
    obtain ⟨hfit, hoffset, hsize⟩ := ArchEntry.holds_encode htable.1
    have hpos := hdocument.length_pos
    rw [List.length_take, List.length_drop] at hpos
    have hnext : (⟨0, bs⟩ : Data).Holds (8 + (index + 1) * 20) rest.table := by
      have hlength : arch.encode.length = 20 := by
        simp only [ArchEntry.encode, bigWord, List.length_append, length_beBytes]
      rw [Nat.add_one_mul, ← Nat.add_assoc]
      exact hlength ▸ htable.2
    rw [show 8 + index * 20 + 8 = 16 + index * 20 by omega] at hoffset
    rw [show 8 + index * 20 + 12 = 20 + index * 20 by omega] at hsize
    have hsub : FatBinary.subFileData ⟨0, bs⟩ index =
        .ok ⟨0, (bs.drop arch.offset.toNat).take arch.size.toNat⟩ := by
      rw [subFileData_eq_ok, hoffset, hsize]
      exact ⟨by omega, by omega, hin, rfl⟩
    rw [Slices.leaves, List.map_append]
    exact .cons hsub (Document.Encodes.opens document hdocument)
      (Slices.Encodes.opensArchs rest (index + 1) hnext hrest)

end

end Opening

/-- **Opening undoes writing.** For every document and every way of writing it, `MochaDocument.init`
returns, with the thin files of the document from left to right: their bytes from index 0 on, under
the name of the member in an archive and under the name of the file elsewhere. -/
theorem init_encodes (g : Segmentation) (name : String) {document : Document} {bs : List UInt8}
    (h : document.Encodes bs) :
    ∃ bound, ∀ fuel ≥ bound, MochaDocument.init g fuel name ⟨0, bs⟩ =
      .ok ⟨name, bs.length, (document.leaves name).map fun l =>
        .ofThin l.1 l.2.is64Bit ⟨0, l.2.bytes⟩⟩ := by
  have hopens : Opens g name ⟨0, bs⟩ _ := Document.Encodes.opens document h
  obtain ⟨bound, hbound⟩ := hopens.exists_init
  refine ⟨bound, fun fuel hfuel => ?_⟩
  rw [(init_mono hfuel _).eq_of_ne (by rw [hbound]; intro he; cases he), hbound]
  rfl

/-- A 32-bit file that is its header. -/
def sampleThin : ThinFile where
  is64Bit := false
  bytes := machoMagic false ++ List.replicate 24 0
  magic := List.prefix_append _ _
  full := by decide

/-- A table of symbols. -/
def sampleSymdef : SymdefMember where
  header := ⟨"__.SYMDEF SORTED", .extended 4, List.replicate 32 0x20,
    ⟨by decide, by decide⟩, by decide +kernel, rfl⟩
  content := [0, 0]
  suffix := " SORTED"
  name_eq := rfl
  ascii := by simp
  size_lt := by decide +kernel
  even := rfl

/-- A member with an extended name and one with a short name. -/
def sampleMembers : List MachoMember :=
  [{  header := ⟨"long name.o", .extended 1, List.replicate 32 0x20,
        ⟨by decide, by decide⟩, by decide +kernel, rfl⟩
      content := sampleThin
      notSymdef := by decide
      size_lt := by decide +kernel
      even := rfl },
    { header := ⟨"a.o", .short, List.replicate 32 0x20, ⟨by decide, by decide⟩,
        by decide +kernel, rfl⟩
      content := sampleThin
      notSymdef := by decide
      size_lt := by decide +kernel
      even := rfl }]

/-- A fat file of an archive and a thin file. -/
def sampleSlices : Slices :=
  .cons ⟨7, 3, 48, 278, 0⟩ (.archive (some sampleSymdef) sampleMembers)
    (.cons ⟨7, 3, 326, 28, 0⟩ (.thin sampleThin) .nil)

def sampleFat : List UInt8 :=
  FatBinary.magic ++ (beBytes 4 2 ++ sampleSlices.table) ++ (UnixArchive.magic ++
    (sampleSymdef.encode ++ sampleMembers.flatMap MachoMember.encode)) ++ sampleThin.bytes

theorem sampleFat_encodes : (Document.fat sampleSlices).Encodes sampleFat := by
  have harchive : (sampleFat.drop 48).take 278 = UnixArchive.magic ++
      (sampleSymdef.encode ++ sampleMembers.flatMap MachoMember.encode) := by decide +kernel
  have hthin : (sampleFat.drop 326).take 28 = sampleThin.bytes := by decide +kernel
  refine ⟨by decide, ?_, by decide +kernel, harchive, by decide +kernel, hthin, trivial⟩
  rw [sampleFat, List.append_assoc]
  exact List.prefix_append _ _

theorem init_encodes_sampleFat :
    ∃ bound, ∀ fuel ≥ bound, MochaDocument.init asciiSegmentation fuel "f" ⟨0, sampleFat⟩ =
      .ok ⟨"f", 354, [.ofThin "long name.o" false ⟨0, sampleThin.bytes⟩,
        .ofThin "a.o" false ⟨0, sampleThin.bytes⟩, .ofThin "f" false ⟨0, sampleThin.bytes⟩]⟩ := by
  have hlength : sampleFat.length = 354 := by decide +kernel
  rw [← hlength]
  exact init_encodes asciiSegmentation "f" sampleFat_encodes

end Mocha
