import Mocha.Document.MemberLoop
import Mocha.Document.Opening

/-!
# When opening a file ends

Opening a fat file comes to its slices one by one (`Comes`). Nothing keeps a slice from being the
whole file, and nothing keeps the loop of an archive from skipping back to a member it has read.

**`init_finishes_iff`**: these are the only two ways in which opening a file does not end. A slice is
no longer than its file, and as long only if it is the file itself, so a recursion that goes on
forever is, from some slice on, the recursion of a file into itself.
-/

namespace Mocha

open Lib DataShifter

/-- Opening the fat file `d` comes to open its slice `e`: all slices before it were opened. -/
def Comes (g : Segmentation) (name : String) (d e : Data) : Prop :=
  d.starts FatBinary.magic = true ∧ ∃ number index metaDatas,
    FatBinary.numberOfArchs d = .ok number ∧ index < number ∧
      OpensArchs g name d index 0 metaDatas ∧ FatBinary.subFileData d index = .ok e

/-- The members of the archive `d`, followed from the first one on, come back to one of them. -/
def ReturnsToMember (g : Segmentation) (d : Data) : Prop :=
  d.starts UnixArchive.magic = true ∧ Cycles (Follows g d) 8

theorem asDocument_unfinished {name : String} {d : Data} {x : Opening (List MachoMetaData)}
    (h : asDocument name d x = .error .unfinished) : x = .error .unfinished := by
  cases x with
  | ok metaDatas => cases h
  | error e =>
    cases e with
    | unfinished => rfl
    | _ => cases h

/-! ## The recursion through fat files -/

section Recursion

variable {g : Segmentation} {name : String}

theorem OpensArchs.snoc {d e : Data} {metaDatas last : List MachoMetaData} {before : Nat} :
    ∀ {index : Nat}, OpensArchs g name d before index metaDatas →
      FatBinary.subFileData d (index + before) = .ok e → Opens g name e last →
      OpensArchs g name d (before + 1) index (metaDatas ++ last) := by
  induction before generalizing metaDatas with
  | zero =>
    intro index harchs hsub hopens
    cases harchs
    rw [List.nil_append, ← List.append_nil last]
    exact .cons hsub hopens (.nil d _)
  | succ before ih =>
    intro index harchs hsub hopens
    cases harchs with
    | cons hfirst hopensFirst hrest =>
      rw [List.append_assoc]
      exact .cons hfirst hopensFirst (ih hrest (by rwa [Nat.add_right_comm, Nat.add_assoc]) hopens)

/-- If the slice a fat file comes to is not finished, neither is the file. -/
theorem comes_unfinished {d e : Data} {fuel : Nat} (h : Comes g name d e)
    (he : MochaDocument.init g fuel name e = .error .unfinished) :
    MochaDocument.init g (fuel + 1) name d = .error .unfinished := by
  obtain ⟨hmagic, number, index, metaDatas, hnumber, hlt, harchs, hsub⟩ := h
  have harchive := fat_not_archive hmagic
  have hloop : FatBinary.archLoop (MochaDocument.init g fuel) d name number 0 =
      .error .unfinished := by
    obtain ⟨left, rfl⟩ : ∃ left, number = index + (left + 1) := ⟨number - index - 1, by omega⟩
    rw [archLoop_add]
    rcases harchs.archLoop_eq fuel with hun | hok
    · rw [hun]
      rfl
    · rw [hok, ok_bind, Nat.zero_add, FatBinary.archLoop, hsub, ofRun_ok, ok_bind, he]
      rfl
  rw [init_succ, contents, if_neg harchive, if_pos hmagic, hnumber, ofRun_ok, ok_bind, hloop]
  rfl

/-- The file is not finished with any fuel. -/
def NeverFinishes (g : Segmentation) (name : String) (d : Data) : Prop :=
  ∀ fuel, MochaDocument.init g fuel name d = .error .unfinished

theorem comes_neverFinishes {d e : Data} (h : Comes g name d e) (he : NeverFinishes g name e) :
    NeverFinishes g name d := by
  intro fuel
  cases fuel with
  | zero => rfl
  | succ fuel => exact comes_unfinished h (he fuel)

/-- A file that is one of its own slices is opened forever. -/
theorem comes_self_neverFinishes {d : Data} (h : Comes g name d d) : NeverFinishes g name d := by
  intro fuel
  induction fuel with
  | zero => rfl
  | succ fuel ih => exact comes_unfinished h ih

theorem returns_neverFinishes {d : Data} (h : ReturnsToMember g d) : NeverFinishes g name d := by
  intro fuel
  cases fuel with
  | zero => rfl
  | succ fuel =>
    have harchive : UnixArchive.init g fuel d = .error .unfinished := by
      rw [archive_unfinished_iff h.1, Option.eq_none_iff_forall_ne_some]
      exact fun r hrun => Walk.not_halts_of_cycles ((memberLoop_cycles_iff 8).mpr h.2) ⟨fuel, r, hrun⟩
    rw [init_succ, contents, if_pos h.1, harchive]
    rfl

/-- The slices of a fat file that is never finished: one of those it comes to is not finished
either. -/
theorem archLoop_neverFinishes {d : Data} {number : Nat} (hmagic : d.starts FatBinary.magic = true)
    (hnumber : FatBinary.numberOfArchs d = .ok number) {left : Nat} :
    ∀ {index : Nat} {metaDatas : List MachoMetaData}, index + left = number →
      OpensArchs g name d index 0 metaDatas →
      (∀ fuel, FatBinary.archLoop (MochaDocument.init g fuel) d name left index =
        .error .unfinished) →
      ∃ e, Comes g name d e ∧ NeverFinishes g name e := by
  induction left with
  | zero =>
    intro index metaDatas _ _ hloop
    cases hloop 0
  | succ left ih =>
    intro index metaDatas hleft harchs hloop
    cases hsub : FatBinary.subFileData d index with
    | error t =>
      have hzero := hloop 0
      rw [FatBinary.archLoop, hsub] at hzero
      cases hzero
    | ok e =>
      have hcomes : Comes g name d e :=
        ⟨hmagic, number, index, metaDatas, hnumber, by omega, harchs, hsub⟩
      by_cases hnever : NeverFinishes g name e
      · exact ⟨e, hcomes, hnever⟩
      · -- the slice is opened, and the ones after it are not finished
        obtain ⟨enough, henough⟩ := Classical.not_forall.mp hnever
        have hlarge : ∀ fuel, enough ≤ fuel →
            MochaDocument.init g fuel name e = MochaDocument.init g enough name e :=
          fun fuel hle => (init_mono hle e).eq_of_ne henough
        cases hfirst : MochaDocument.init g enough name e with
        | error failure =>
          have hfail := hloop enough
          rw [FatBinary.archLoop, hsub, ofRun_ok, ok_bind, hfirst] at hfail
          cases hfail
          exact absurd hfirst henough
        | ok document =>
          have hopens := (opens_of_init hfirst).2.2
          refine ih (by omega) (harchs.snoc (by rwa [Nat.zero_add]) hopens) ?_
          intro fuel
          have hmax := hloop (max fuel enough)
          rw [archLoop_succ hsub ((hlarge _ (Nat.le_max_right _ _)).trans hfirst)] at hmax
          have hrest : FatBinary.archLoop (MochaDocument.init g (max fuel enough)) d name left
              (index + 1) = .error .unfinished := by
            cases hcase : FatBinary.archLoop (MochaDocument.init g (max fuel enough)) d name left
                (index + 1) with
            | ok rest =>
              rw [hcase] at hmax
              cases hmax
            | error failure =>
              rw [hcase] at hmax
              cases hmax
              rfl
          rcases archLoop_within (fun e => init_mono (g := g) (Nat.le_max_left fuel enough) e) left
            (index + 1) with hun | heq
          · exact hun
          · exact heq.trans hrest

/-- A slice is no longer than its file, and as long only if it has the same bytes. -/
theorem subFileData_size {d e : Data} {index : Nat} (h : FatBinary.subFileData d index = .ok e) :
    e.startIndex = 0 ∧ e.count ≤ d.count ∧ (e.count = d.count → e.bytes = d.bytes) := by
  obtain ⟨_, _, hfit, rfl⟩ := subFileData_eq_ok.mp h
  have hcount := d.window_count hfit
  refine ⟨rfl, ?_, ?_⟩
  · change (d.window _ _).count ≤ d.count
    omega
  · intro hsame
    change (d.window _ _).count = d.count at hsame
    have hoffset : d.bigWordAt (16 + index * 20) = 0 := by omega
    have hsize : d.bigWordAt (20 + index * 20) = d.count := by omega
    change (d.window _ _).bytes = d.bytes
    rw [hoffset, hsize, d.window_all]

/-- Opening `d` comes to a file that is one of its own slices, or to an archive whose loop comes back
to a member. -/
def Endless (g : Segmentation) (name : String) (d : Data) : Prop :=
  ∃ e, Relation.ReflTransGen (Comes g name) d e ∧ (Comes g name e e ∨ ReturnsToMember g e)

theorem endless_neverFinishes {d : Data} (h : Endless g name d) : NeverFinishes g name d := by
  obtain ⟨e, hreach, hbad⟩ := h
  have he : NeverFinishes g name e := by
    rcases hbad with hself | hreturns
    · exact comes_self_neverFinishes hself
    · exact returns_neverFinishes hreturns
  induction hreach using Relation.ReflTransGen.head_induction_on with
  | refl => exact he
  | head hcomes _ ih => exact comes_neverFinishes hcomes ih

theorem neverFinishes_endless {d : Data} (h0 : d.startIndex = 0) (h : NeverFinishes g name d) :
    Endless g name d := by
  -- each slice that is not finished is shorter, or is the file itself
  generalize hcount : d.count = n
  induction n using Nat.strongRecOn generalizing d with
  | ind n ih =>
    by_cases harchive : d.starts UnixArchive.magic = true
    · refine ⟨d, .refl, .inr ⟨harchive, (memberLoop_cycles_iff 8).mp ?_⟩⟩
      by_contra hno
      obtain ⟨fuel, r, hrun⟩ := (memberLoop_halts_iff d).mpr hno
      have hdone := h (fuel + 1)
      rw [init_succ, contents, if_pos harchive] at hdone
      have hun := asDocument_unfinished hdone
      cases hinit : UnixArchive.init g fuel d with
      | ok archive =>
        rw [hinit] at hun
        cases hun
      | error e =>
        rw [hinit] at hun
        cases hun
        rw [archive_unfinished_iff harchive, hrun] at hinit
        cases hinit
    · by_cases hfat : d.starts FatBinary.magic = true
      · cases hnumber : FatBinary.numberOfArchs d with
        | error t =>
          have hone := h 1
          rw [init_succ, contents, if_neg harchive, if_pos hfat, hnumber] at hone
          cases hone
        | ok number =>
          have hloop : ∀ fuel, FatBinary.archLoop (MochaDocument.init g fuel) d name number 0 =
              .error .unfinished := by
            intro fuel
            have hdone := h (fuel + 1)
            rw [init_succ, contents, if_neg harchive, if_pos hfat, hnumber, ofRun_ok, ok_bind] at hdone
            exact asDocument_unfinished hdone
          obtain ⟨e, hcomes, hnever⟩ := archLoop_neverFinishes hfat hnumber (Nat.zero_add number)
            (.nil d 0) hloop
          obtain ⟨_, _, index, _, _, _, _, hsub⟩ := id hcomes
          obtain ⟨he0, hle, hsame⟩ := subFileData_size hsub
          by_cases heq : e.count = d.count
          · have hed : e = d := by
              obtain ⟨k, bs⟩ := e
              obtain ⟨k', bs'⟩ := d
              cases he0
              cases h0
              exact congrArg (Data.mk 0) (hsame heq)
            exact ⟨d, .refl, .inl (hed ▸ hcomes)⟩
          · obtain ⟨f, hreach, hbad⟩ := ih e.count (by omega) he0 hnever rfl
            exact ⟨f, .head hcomes hreach, hbad⟩
      · have hone := h 1
        rw [init_succ, contents, if_neg harchive, if_neg hfat] at hone
        have hun := asDocument_unfinished hone
        cases hm : MachoMetaData.init name d with
        | ok m =>
          rw [hm] at hun
          cases hun
        | error e =>
          rw [hm] at hun
          cases hun
          exact absurd hm machoMetaData_finished

end Recursion

/-- **Opening a file ends unless it comes to a file that lists itself, or to an archive that skips back
to a member.** -/
theorem init_finishes_iff (g : Segmentation) (name : String) (bytes : List UInt8) :
    (∃ bound, ∀ fuel, bound ≤ fuel →
      MochaDocument.init g fuel name ⟨0, bytes⟩ ≠ .error .unfinished) ↔
      ¬ Endless g name ⟨0, bytes⟩ := by
  constructor
  · rintro ⟨bound, hbound⟩ hendless
    exact hbound bound (Nat.le_refl bound) (endless_neverFinishes hendless bound)
  · intro hno
    by_contra hnever
    refine hno (neverFinishes_endless rfl ?_)
    intro fuel
    by_contra hfuel
    refine hnever ⟨fuel, fun more hle => ?_⟩
    rwa [(init_mono hle _).eq_of_ne hfuel]

/-- A fat file of one slice, which is the whole file. -/
def selfNestedFile : List UInt8 :=
  FatBinary.magic ++ beBytes 4 1 ++ beBytes 4 7 ++ beBytes 4 3 ++ beBytes 4 0 ++ beBytes 4 28 ++
    beBytes 4 0

theorem selfNestedFile_never_finishes :
    ¬ ∃ bound, ∀ fuel, bound ≤ fuel →
      MochaDocument.init asciiSegmentation fuel "a" ⟨0, selfNestedFile⟩ ≠ .error .unfinished := by
  have hcomes : Comes asciiSegmentation "a" ⟨0, selfNestedFile⟩ ⟨0, selfNestedFile⟩ :=
    ⟨by decide +kernel, 1, 0, [], by decide +kernel, Nat.one_pos, .nil _ 0, by decide +kernel⟩
  rintro ⟨bound, hbound⟩
  exact hbound bound (Nat.le_refl bound) (comes_self_neverFinishes hcomes bound)

end Mocha
