import Mocha.Document.MochaDocument

/-!
# What opening a file comes to

The three magic numbers exclude each other, so at most one initializer looks past the magic of a
file; `contents` is what that one finds, and `init_succ` says that `MochaDocument.init` returns it, or
turns the error it throws into a `MochaDocumentError`.

`Opens` is opening a file without a bound on the steps: an archive whose members are read to the end,
a fat file all of whose slices are opened, or a thin file with a whole header.
**`opens_iff`**: `MochaDocument.init` returns the files `Opens` says, given enough fuel. More fuel never
changes an outcome (`init_mono`).
-/

namespace Mocha

open Lib

/-- What the initializer that recognizes the magic of a file finds in it. -/
def contents (g : Segmentation) (fuel : Nat) (name : String) (d : Data) :
    Opening (List MachoMetaData) :=
  if d.starts UnixArchive.magic then do return (← UnixArchive.init g fuel d).machoMetaDatas
  else if d.starts FatBinary.magic then do
    FatBinary.archLoop (MochaDocument.init g fuel) d name (← ofRun (FatBinary.numberOfArchs d)) 0
  else do return [← MachoMetaData.init name d]

/-- What `MochaDocument.init` makes of it. -/
def asDocument (name : String) (d : Data) : Opening (List MachoMetaData) → Opening MochaDocument
  | .ok metaDatas => .ok ⟨name, d.count, metaDatas⟩
  | .error (.thrown _) => .error (.thrown .mochaDocumentError)
  | .error (.trap t) => .error (.trap t)
  | .error .unfinished => .error .unfinished

/-! ## The three magic numbers -/

/-- A file starts with at most one of two lists of which neither is the start of the other. -/
theorem starts_exclusive {d : Data} {a b : List UInt8} (hab : ¬ a <+: b) (hba : ¬ b <+: a)
    (h : d.starts a = true) : d.starts b = false := by
  by_contra hboth
  rw [Bool.not_eq_false] at hboth
  unfold Data.starts at h hboth
  rw [List.isPrefixOf_iff_prefix] at h hboth
  rcases Nat.le_total a.length b.length with hle | hle
  · exact hab (List.prefix_of_prefix_length_le h hboth hle)
  · exact hba (List.prefix_of_prefix_length_le hboth h hle)

theorem machoMetaData_thrown {name : String} {d : Data} (h : ∀ b, d.starts (machoMagic b) = false) :
    MachoMetaData.init name d = .error (.thrown .machoMetaDataError) := by
  unfold MachoMetaData.init
  rw [h false, h true]
  rfl

theorem archive_not_macho {d : Data} (h : d.starts UnixArchive.magic = true) (b : Bool) :
    d.starts (machoMagic b) = false := by
  cases b
  · exact starts_exclusive (by decide) (by decide) h
  · exact starts_exclusive (by decide) (by decide) h

theorem fat_not_macho {d : Data} (h : d.starts FatBinary.magic = true) (b : Bool) :
    d.starts (machoMagic b) = false := by
  cases b
  · exact starts_exclusive (by decide) (by decide) h
  · exact starts_exclusive (by decide) (by decide) h

theorem fat_not_archive {d : Data} (h : d.starts FatBinary.magic = true) :
    ¬ d.starts UnixArchive.magic = true := by
  rw [starts_exclusive (by decide) (by decide) h]
  exact Bool.false_ne_true

/-- **At most one initializer looks past the magic.** -/
theorem init_succ (g : Segmentation) (fuel : Nat) (name : String) (d : Data) :
    MochaDocument.init g (fuel + 1) name d = asDocument name d (contents g fuel name d) := by
  unfold MochaDocument.init contents
  by_cases harchive : d.starts UnixArchive.magic = true
  · have hfat : d.starts FatBinary.magic = false :=
      starts_exclusive (by decide) (by decide) harchive
    have hnofat : FatBinary.init (MochaDocument.init g fuel) d name =
        .error (.thrown .fatBinaryError) := by
      unfold FatBinary.init
      rw [hfat]
      rfl
    rw [if_pos harchive, hnofat, machoMetaData_thrown (archive_not_macho harchive)]
    cases UnixArchive.init g fuel d with
    | ok a => rfl
    | error e => cases e <;> rfl
  · have hnoarchive : UnixArchive.init g fuel d = .error (.thrown .unixArchiveError) := by
      unfold UnixArchive.init
      rw [if_neg harchive]
    rw [if_neg harchive, hnoarchive]
    by_cases hfat : d.starts FatBinary.magic = true
    · rw [if_pos hfat, machoMetaData_thrown (fat_not_macho hfat)]
      unfold FatBinary.init
      rw [if_pos hfat]
      cases FatBinary.numberOfArchs d with
      | error t => rfl
      | ok number =>
        simp only [ofRun_ok, ok_bind]
        cases FatBinary.archLoop (MochaDocument.init g fuel) d name number 0 with
        | ok metaDatas => rfl
        | error e => cases e <;> rfl
    · have hnofat : FatBinary.init (MochaDocument.init g fuel) d name =
          .error (.thrown .fatBinaryError) := by
        unfold FatBinary.init
        rw [if_neg hfat]
      rw [if_neg hfat, hnofat]
      cases MachoMetaData.init name d with
      | ok m => rfl
      | error e => cases e <;> rfl

/-! ## More fuel -/

section Within

variable {α β : Type}

/-- `y` is what `x` comes to with more fuel. -/
def Within (x y : Opening α) : Prop := x = .error .unfinished ∨ x = y

theorem Within.bind {x y : Opening α} {f f' : α → Opening β} (h : Within x y)
    (hf : ∀ a, x = .ok a → Within (f a) (f' a)) : Within (x >>= f) (y >>= f') := by
  rcases h with rfl | rfl
  · exact .inl rfl
  · cases hx : x with
    | error e => exact .inr rfl
    | ok a => exact hf a hx

theorem Within.eq_of_ne {x y : Opening α} (h : Within x y) (hx : x ≠ .error .unfinished) : y = x := by
  rcases h with h | h
  · exact absurd h hx
  · exact h.symm

end Within

theorem archLoop_within {f f' : String → Data → Opening MochaDocument} {d : Data} {name : String}
    (hf : ∀ e, Within (f name e) (f' name e)) (left index : Nat) :
    Within (FatBinary.archLoop f d name left index) (FatBinary.archLoop f' d name left index) := by
  induction left generalizing index with
  | zero => exact .inr rfl
  | succ left ih =>
    unfold FatBinary.archLoop
    refine Within.bind (.inr rfl) fun subFile _ => ?_
    refine Within.bind (hf subFile) fun document _ => ?_
    exact Within.bind (ih (index + 1)) fun rest _ => .inr rfl

theorem archive_within (g : Segmentation) (fuel : Nat) (d : Data) :
    Within (UnixArchive.init g fuel d) (UnixArchive.init g (fuel + 1) d) := by
  unfold UnixArchive.init
  split
  · cases hrun : (UnixArchive.memberLoop g).run fuel (UnixArchive.firstMember d) with
    | none => exact .inl rfl
    | some r =>
      rw [Walk.run_succ hrun]
      exact .inr rfl
  · exact .inr rfl

theorem init_within (g : Segmentation) (fuel : Nat) (name : String) (d : Data) :
    Within (MochaDocument.init g fuel name d) (MochaDocument.init g (fuel + 1) name d) := by
  induction fuel generalizing d with
  | zero => exact .inl rfl
  | succ fuel ih =>
    rw [init_succ, init_succ]
    have hcontents : Within (contents g fuel name d) (contents g (fuel + 1) name d) := by
      unfold contents
      split
      · exact Within.bind (archive_within g fuel d) fun _ _ => .inr rfl
      · split
        · exact Within.bind (.inr rfl) fun number _ => archLoop_within ih number 0
        · exact .inr rfl
    rcases hcontents with h | h
    · rw [h]
      exact .inl rfl
    · rw [h]
      exact .inr rfl

/-- **More fuel does not change an outcome.** -/
theorem init_mono {g : Segmentation} {name : String} {fuel more : Nat} (hle : fuel ≤ more) (d : Data) :
    Within (MochaDocument.init g fuel name d) (MochaDocument.init g more name d) := by
  induction hle with
  | refl => exact .inr rfl
  | step _ ih =>
    rcases ih with h | h
    · exact .inl h
    · rw [h]
      exact init_within g _ name d

/-! ## Opening without a bound -/

mutual

/-- Opening the file `d` under a name gives these Mach-O files. -/
inductive Opens (g : Segmentation) (name : String) : Data → List MachoMetaData → Prop
  | archive {d : Data} {members : List (Option MachoMetaData)} {u : DataShifter}
      (hmagic : d.starts UnixArchive.magic = true)
      (hturns : (UnixArchive.memberLoop g).Turns (UnixArchive.firstMember d) members u)
      (hend : u.shiftable = false) : Opens g name d members.reduceOption
  | fat {d : Data} {number : Nat} {metaDatas : List MachoMetaData}
      (hmagic : d.starts FatBinary.magic = true) (hnumber : FatBinary.numberOfArchs d = .ok number)
      (harchs : OpensArchs g name d number 0 metaDatas) : Opens g name d metaDatas
  | thin {d : Data} (is64Bit : Bool) (hmagic : d.starts (machoMagic is64Bit) = true)
      (hsize : machoHeaderSize is64Bit ≤ d.count) :
      Opens g name d [MachoMetaData.ofThin name is64Bit d]

/-- Opening `left` slices of the fat file `d`, from the one at `index` on, gives these Mach-O
files. -/
inductive OpensArchs (g : Segmentation) (name : String) : Data → (left index : Nat) →
    List MachoMetaData → Prop
  | nil (d : Data) (index : Nat) : OpensArchs g name d 0 index []
  | cons {d e : Data} {left index : Nat} {metaDatas rest : List MachoMetaData}
      (hsub : FatBinary.subFileData d index = .ok e) (hopens : Opens g name e metaDatas)
      (hrest : OpensArchs g name d left (index + 1) rest) :
      OpensArchs g name d (left + 1) index (metaDatas ++ rest)

end

section Opens

variable {g : Segmentation} {name : String}

theorem archLoop_succ {f : String → Data → Opening MochaDocument} {d e : Data} {left index : Nat}
    {document : MochaDocument} (hsub : FatBinary.subFileData d index = .ok e)
    (hopen : f name e = .ok document) :
    FatBinary.archLoop f d name (left + 1) index =
      (FatBinary.archLoop f d name left (index + 1) >>= fun rest =>
        .ok (document.machoMetaDatas ++ rest)) := by
  rw [FatBinary.archLoop, hsub, ofRun_ok, ok_bind, hopen, ok_bind]
  rfl

/-- The slices of a fat file are opened one after the other. -/
theorem archLoop_add (f : String → Data → Opening MochaDocument) (d : Data) (name : String)
    (a b index : Nat) : FatBinary.archLoop f d name (a + b) index =
      (FatBinary.archLoop f d name a index >>= fun first =>
        FatBinary.archLoop f d name b (index + a) >>= fun rest => .ok (first ++ rest)) := by
  induction a generalizing index with
  | zero =>
    rw [Nat.zero_add, Nat.add_zero, FatBinary.archLoop, ok_bind]
    cases FatBinary.archLoop f d name b index <;> rfl
  | succ a ih =>
    rw [Nat.add_right_comm, FatBinary.archLoop, FatBinary.archLoop]
    cases FatBinary.subFileData d index with
    | error t => rfl
    | ok e =>
      rw [ofRun_ok, ok_bind, ok_bind]
      cases f name e with
      | error failure => rfl
      | ok document =>
        rw [ok_bind, ok_bind, ih (index + 1), Nat.add_right_comm index 1 a, ← Nat.add_assoc]
        cases FatBinary.archLoop f d name a (index + 1) with
        | error failure => rfl
        | ok first =>
          simp only [ok_bind, pure_eq_ok]
          cases FatBinary.archLoop f d name b (index + a + 1) with
          | error failure => rfl
          | ok rest => simp only [ok_bind, List.append_assoc]

theorem opensArchs_of_archLoop {f : String → Data → Opening MochaDocument} {d : Data}
    (hf : ∀ e document, f name e = .ok document → Opens g name e document.machoMetaDatas)
    {left index : Nat} {metaDatas : List MachoMetaData}
    (h : FatBinary.archLoop f d name left index = .ok metaDatas) :
    OpensArchs g name d left index metaDatas := by
  induction left generalizing index metaDatas with
  | zero =>
    cases h
    exact .nil d index
  | succ left ih =>
    unfold FatBinary.archLoop at h
    rw [ofRun_bind_eq_ok] at h
    obtain ⟨e, hsub, h⟩ := h
    rw [bind_eq_ok] at h
    obtain ⟨document, hopen, h⟩ := h
    rw [bind_eq_ok] at h
    obtain ⟨rest, hrest, h⟩ := h
    cases h
    exact .cons hsub (hf e document hopen) (ih hrest)

/-- Whatever `MochaDocument.init` returns is what the file opens as. -/
theorem opens_of_init {fuel : Nat} {d : Data} {document : MochaDocument}
    (h : MochaDocument.init g fuel name d = .ok document) :
    document.fileName = name ∧ document.fileSize = d.count ∧
      Opens g name d document.machoMetaDatas := by
  induction fuel generalizing d document with
  | zero => cases h
  | succ fuel ih =>
    rw [init_succ] at h
    cases hcontents : contents g fuel name d with
    | error e =>
      rw [hcontents] at h
      cases e <;> cases h
    | ok metaDatas =>
      rw [hcontents] at h
      cases h
      refine ⟨rfl, rfl, ?_⟩
      unfold contents at hcontents
      split at hcontents
      · rename_i hmagic
        unfold UnixArchive.init at hcontents
        rw [if_pos hmagic] at hcontents
        split at hcontents
        · cases hcontents
        · cases hcontents
        · rename_i members u hrun
          cases hcontents
          obtain ⟨hturns, hend⟩ := Walk.exists_run_iff.mp ⟨fuel, hrun⟩
          exact .archive hmagic hturns hend
      · split at hcontents
        · rename_i hmagic
          rw [ofRun_bind_eq_ok] at hcontents
          obtain ⟨number, hnumber, hloop⟩ := hcontents
          exact .fat hmagic hnumber (opensArchs_of_archLoop (fun e document he => (ih he).2.2) hloop)
        · rw [bind_eq_ok] at hcontents
          obtain ⟨m, hm, hcontents⟩ := hcontents
          cases hcontents
          obtain ⟨is64Bit, hmagic, hsize, rfl⟩ := machoMetaData_init_eq_ok.mp hm
          exact .thin is64Bit hmagic hsize

mutual

theorem Opens.exists_init {d : Data} {metaDatas : List MachoMetaData} :
    Opens g name d metaDatas →
      ∃ fuel, MochaDocument.init g fuel name d = .ok ⟨name, d.count, metaDatas⟩
  | @Opens.archive _ _ _ members _ hmagic hturns hend => by
    obtain ⟨fuel, hrun⟩ := Walk.exists_run_iff.mpr ⟨hturns, hend⟩
    refine ⟨fuel + 1, ?_⟩
    have harchive : UnixArchive.init g fuel d = .ok ⟨members.reduceOption⟩ := by
      unfold UnixArchive.init
      rw [if_pos hmagic, hrun]
    rw [init_succ, contents, if_pos hmagic, harchive]
    rfl
  | .fat hmagic hnumber harchs => by
    obtain ⟨fuel, hloop⟩ := harchs.exists_archLoop
    refine ⟨fuel + 1, ?_⟩
    rw [init_succ, contents, if_neg (fat_not_archive hmagic), if_pos hmagic, hnumber, ofRun_ok,
      ok_bind, hloop]
    rfl
  | .thin is64Bit hmagic hsize => by
    refine ⟨1, ?_⟩
    have harchive : ¬ d.starts UnixArchive.magic = true := by
      intro h
      rw [archive_not_macho h is64Bit] at hmagic
      cases hmagic
    have hfat : ¬ d.starts FatBinary.magic = true := by
      intro h
      rw [fat_not_macho h is64Bit] at hmagic
      cases hmagic
    rw [init_succ, contents, if_neg harchive, if_neg hfat,
      machoMetaData_init_eq_ok.mpr ⟨is64Bit, hmagic, hsize, rfl⟩]
    rfl

theorem OpensArchs.exists_archLoop {d : Data} {left index : Nat} {metaDatas : List MachoMetaData} :
    OpensArchs g name d left index metaDatas →
      ∃ fuel, FatBinary.archLoop (MochaDocument.init g fuel) d name left index = .ok metaDatas
  | .nil _ _ => ⟨0, rfl⟩
  | .cons hsub hopens hrest => by
    obtain ⟨fuel, hinit⟩ := hopens.exists_init
    obtain ⟨fuel', hloop⟩ := hrest.exists_archLoop
    refine ⟨max fuel fuel', ?_⟩
    have hinit' := (init_mono (Nat.le_max_left fuel fuel') _).eq_of_ne
      (by rw [hinit]; intro he; cases he)
    have hloop' := (archLoop_within (fun e => init_mono (Nat.le_max_right fuel fuel') e) _ _).eq_of_ne
      (by rw [hloop]; intro he; cases he)
    rw [archLoop_succ hsub (hinit'.trans hinit), hloop', hloop]
    rfl

end

/-- An opened file is opened or not finished, whatever the fuel. -/
theorem Opens.init_eq {d : Data} {metaDatas : List MachoMetaData} (h : Opens g name d metaDatas)
    (fuel : Nat) : Within (MochaDocument.init g fuel name d) (.ok ⟨name, d.count, metaDatas⟩) := by
  obtain ⟨enough, henough⟩ := h.exists_init
  rcases Nat.le_total fuel enough with hle | hle
  · rw [← henough]
    exact init_mono hle d
  · rw [(init_mono hle d).eq_of_ne (by rw [henough]; intro he; cases he), henough]
    exact .inr rfl

/-- So are opened slices. -/
theorem OpensArchs.archLoop_eq {d : Data} {left index : Nat} {metaDatas : List MachoMetaData}
    (h : OpensArchs g name d left index metaDatas) (fuel : Nat) :
    Within (FatBinary.archLoop (MochaDocument.init g fuel) d name left index) (.ok metaDatas) := by
  obtain ⟨enough, henough⟩ := h.exists_archLoop
  rcases Nat.le_total fuel enough with hle | hle
  · rw [← henough]
    exact archLoop_within (fun e => init_mono hle e) left index
  · rw [(archLoop_within (fun e => init_mono hle e) left index).eq_of_ne
      (by rw [henough]; intro he; cases he), henough]
    exact .inr rfl

/-- **`MochaDocument.init` opens what `Opens` says.** -/
theorem opens_iff {d : Data} {metaDatas : List MachoMetaData} : Opens g name d metaDatas ↔
    ∃ fuel, MochaDocument.init g fuel name d = .ok ⟨name, d.count, metaDatas⟩ := by
  constructor
  · exact Opens.exists_init
  · rintro ⟨fuel, h⟩
    exact (opens_of_init h).2.2

end Opens

end Mocha
