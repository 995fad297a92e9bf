import Mocha.Document.UnixArchive
import Mocha.Helpers.Layout

/-!
# The loop over the members of an archive

Wherever the loop of `UnixArchive.init` stands, the next member begins 60 bytes and the declared size
further on (`MemberAt`). The size of a `__.SYMDEF` member is signed and nothing checks it, so the next
offset may lie before the member.

**`archive_finishes_iff`**: the loop ends iff the offsets of the members, followed from the first one on,
never come back to one of them. They do not when every size is above `-60`
(`archive_finishes_of_sizes`).
-/

namespace Mocha

open Lib DataShifter

/-- The member at the offset `p` is followed by the one at `q`. -/
def Follows (g : Segmentation) (d : Data) (p q : Int) : Prop :=
  ∃ (k : Nat) (member : Option MachoMetaData), p = k ∧ UnixArchive.MemberAt g d k member q

/-! ## What always ends -/

section Finished

variable {α β : Type}

theorem ofRun_bind_unfinished {x : Run α} {f : α → Opening β}
    (h : (ofRun x >>= f) = .error .unfinished) : ∃ a, x = .ok a ∧ f a = .error .unfinished := by
  cases x with
  | ok a => exact ⟨a, rfl, h⟩
  | error t => cases h

theorem machoMetaData_finished {name : String} {d : Data} :
    MachoMetaData.init name d ≠ .error .unfinished := by
  unfold MachoMetaData.init
  intro h
  split at h
  · obtain ⟨header, _, h⟩ := ofRun_bind_unfinished h
    cases h
  · split at h
    · obtain ⟨header, _, h⟩ := ofRun_bind_unfinished h
      cases h
    · cases h

theorem nextMember_finished {g : Segmentation} {s : DataShifter} :
    UnixArchive.nextMember g s ≠ .error .unfinished := by
  unfold UnixArchive.nextMember
  intro h
  obtain ⟨⟨header, t⟩, _, h⟩ := ofRun_bind_unfinished h
  simp only at h
  split at h
  · cases h
  · obtain ⟨⟨machoData, u⟩, _, h⟩ := ofRun_bind_unfinished h
    cases hm : MachoMetaData.init header.fileID machoData.rebased with
    | ok m =>
      simp only [hm] at h
      cases h
    | error e =>
      simp only [hm] at h
      cases h
      exact machoMetaData_finished hm

end Finished

/-! ## The steps of the loop -/

section Loop

variable {g : Segmentation} {d : Data}

theorem shift_nonneg {s : DataShifter} {straddle : Straddle} {r : Data × DataShifter}
    (h : s.shift straddle = .ok r) : 0 ≤ s.shifted := by
  unfold DataShifter.shift at h
  simp only [bind_eq_ok, guardElse_eq_ok, decide_eq_true_eq] at h
  obtain ⟨_, _, _, _, h⟩ := h
  split at h
  · cases h
  · omega

/-- **A turn leads to the member that follows.** -/
theorem memberLoop_step (p : Int) (t : DataShifter) :
    (UnixArchive.memberLoop g).Step ⟨d, p⟩ t ↔ ∃ q, Follows g d p q ∧ t = ⟨d, q⟩ := by
  constructor
  · rintro ⟨-, member, hnext⟩
    have hnext : UnixArchive.nextMember g ⟨d, p⟩ = .ok (member, t) := hnext
    have hpos : 0 ≤ p := by
      unfold UnixArchive.nextMember UnixArchiveFileHeader.init at hnext
      rw [ofRun_bind_eq_ok] at hnext
      obtain ⟨r, hheader, -⟩ := hnext
      rw [bind_eq_ok] at hheader
      obtain ⟨first, hshift, -⟩ := hheader
      exact shift_nonneg hshift
    obtain ⟨k, rfl⟩ := Int.eq_ofNat_of_zero_le hpos
    obtain ⟨next, hmember, rfl⟩ := UnixArchive.nextMember_eq_ok.mp hnext
    exact ⟨next, ⟨k, member, rfl, hmember⟩, rfl⟩
  · rintro ⟨next, ⟨k, member, rfl, hmember⟩, rfl⟩
    refine ⟨?_, member, UnixArchive.nextMember_eq_ok.mpr ⟨next, hmember, rfl⟩⟩
    exact (shiftable_cursor d k).trans (decide_eq_true (Nat.lt_of_lt_of_le (by omega) hmember.fits))

/-- The loop comes back to a member iff the offsets do. -/
theorem memberLoop_cycles_iff (p : Int) :
    (UnixArchive.memberLoop g).Cycles ⟨d, p⟩ ↔ Cycles (Follows g d) p :=
  cycles_map_iff (f := fun p => (⟨d, p⟩ : DataShifter)) (fun _ _ h => (DataShifter.mk.inj h).2)
    memberLoop_step

/-- The cursors the loop comes to are at the offsets that follow. -/
theorem exists_memberLoop_turns_iff (p : Int) {u : DataShifter} :
    (∃ members, (UnixArchive.memberLoop g).Turns ⟨d, p⟩ members u) ↔
      ∃ q, Relation.ReflTransGen (Follows g d) p q ∧ u = ⟨d, q⟩ :=
  Walk.exists_turns_iff.trans
    (reflTransGen_map_iff (f := fun p => (⟨d, p⟩ : DataShifter)) memberLoop_step)

/-- **The archive loop ends iff it never comes back to a member.** -/
theorem memberLoop_halts_iff (d : Data) :
    (UnixArchive.memberLoop g).Halts (UnixArchive.firstMember d) ↔
      ¬ (UnixArchive.memberLoop g).Cycles (UnixArchive.firstMember d) := by
  -- a turn starts at one of the offsets of the data
  refine Walk.halts_iff (S := (fun k : Nat => (⟨d, k⟩ : DataShifter)) '' {k | k < d.count})
    ((Set.finite_lt_nat d.count).image _) ?_
  intro s t hreach hstep
  have hdata : s.data = d := by
    clear hstep
    induction hreach with
    | refl => rfl
    | @tail s u _ hstep ih =>
      obtain ⟨q, -, rfl⟩ := (memberLoop_step s.shifted u).mp hstep
      exact ih
  obtain ⟨e, p⟩ := s
  change e = d at hdata
  subst hdata
  obtain ⟨q, ⟨k, member, rfl, hmember⟩, -⟩ := (memberLoop_step p t).mp hstep
  exact ⟨k, Nat.lt_of_lt_of_le (by omega) hmember.fits, rfl⟩

/-- An archive is cut off exactly when its loop is. -/
theorem archive_unfinished_iff {fuel : Nat} (hmagic : d.starts UnixArchive.magic = true) :
    UnixArchive.init g fuel d = .error .unfinished ↔
      (UnixArchive.memberLoop g).run fuel (UnixArchive.firstMember d) = none := by
  unfold UnixArchive.init
  rw [if_pos hmagic]
  cases hrun : (UnixArchive.memberLoop g).run fuel (UnixArchive.firstMember d) with
  | none => exact iff_of_true rfl rfl
  | some r =>
    refine iff_of_false ?_ nofun
    cases r with
    | ok p => nofun
    | error e =>
      intro h
      cases h
      obtain ⟨_, u, _, _, hfail⟩ := Walk.exists_run_error_iff.mp ⟨fuel, hrun⟩
      exact nextMember_finished hfail

/-- With enough fuel an archive is finished iff its loop ends. -/
theorem archive_finishes_iff_halts (hmagic : d.starts UnixArchive.magic = true) :
    (∃ bound, ∀ fuel ≥ bound, UnixArchive.init g fuel d ≠ .error .unfinished) ↔
      (UnixArchive.memberLoop g).Halts (UnixArchive.firstMember d) := by
  simp only [ne_eq, archive_unfinished_iff hmagic]
  constructor
  · rintro ⟨bound, hbound⟩
    obtain ⟨r, hr⟩ := Option.ne_none_iff_exists'.mp (hbound bound (Nat.le_refl bound))
    exact ⟨bound, r, hr⟩
  · rintro ⟨bound, r, hr⟩
    refine ⟨bound, fun fuel hle => ?_⟩
    rw [Walk.run_mono hr hle]
    nofun

end Loop

/-- **The loop over the members ends** iff the offsets of the members never come back to one. -/
theorem archive_finishes_iff (g : Segmentation) {d : Data}
    (hmagic : d.starts UnixArchive.magic = true) :
    (∃ bound, ∀ fuel ≥ bound, UnixArchive.init g fuel d ≠ .error .unfinished) ↔
      ¬ Cycles (Follows g d) 8 := by
  rw [archive_finishes_iff_halts hmagic, memberLoop_halts_iff]
  exact not_congr (memberLoop_cycles_iff 8)

/-- An archive that is one `__.SYMDEF` member, with the declared size `size`. -/
def symdefArchive (size : String) : Data :=
  ⟨0, UnixArchive.magic ++ textField 16 "__.SYMDEF" ++ List.replicate 32 0x20 ++ textField 10 size ++
    [0x60, 0x0A]⟩

/-- An empty table of symbols is followed by the end of the file. -/
theorem archive_finishes_iff_emptySymdef :
    ∃ bound, ∀ fuel ≥ bound,
      UnixArchive.init asciiSegmentation fuel (symdefArchive "0") ≠ .error .unfinished := by
  refine (archive_finishes_iff asciiSegmentation (by decide +kernel)).mpr fun hcycles => ?_
  have hcount : (symdefArchive "0").count = 68 := by decide +kernel
  obtain ⟨p, ⟨k, member, hk, hmember⟩, hcycles⟩ := hcycles.next
  obtain rfl : k = 8 := by omega
  obtain ⟨q, ⟨k', member', hk', hmember'⟩, -⟩ := hcycles.next
  have hle := hmember'.fits
  cases hmember with
  | symdef htext _ _ =>
    obtain ⟨text, htext, hsize⟩ := htext.size
    have hzero : ((symdefArchive "0").window 56 10).utf8String.bind
        (fun text => parseInt (spaceRemoved text)) = some 0 := by decide +kernel
    rw [htext, Option.bind_some, hsize] at hzero
    cases hzero
    omega
  | macho htext _ _ _ _ _ _ _ => omega

/-- A size of `-60` leads back to the member itself. -/
theorem backwardSymdef_never_finishes :
    ¬ ∃ bound, ∀ fuel ≥ bound,
      UnixArchive.init asciiSegmentation fuel (symdefArchive "-60") ≠ .error .unfinished := by
  have htext : HeaderText (symdefArchive "-60") 8 "__.SYMDEF       " (-60) :=
    ⟨by decide +kernel, by decide +kernel, ⟨"-60       ", by decide +kernel, by decide +kernel⟩,
      by decide +kernel⟩
  have hname : NameText asciiSegmentation (symdefArchive "-60") 8 "__.SYMDEF       " "__.SYMDEF" 0 :=
    .short (by decide +kernel)
  have hback : Follows asciiSegmentation (symdefArchive "-60") 8 8 :=
    ⟨8, none, rfl, .symdef htext hname (by decide +kernel)⟩
  rw [archive_finishes_iff_halts (by decide +kernel)]
  exact Walk.not_halts_of_cycles ((memberLoop_cycles_iff 8).mpr ⟨8, .refl, .single hback⟩)

/-- **An archive whose sizes are all above `-60` ends**: every member is behind the one it follows. -/
theorem archive_finishes_of_sizes (g : Segmentation) {d : Data}
    (hmagic : d.starts UnixArchive.magic = true)
    (hsizes : ∀ k fileID size, HeaderText d k fileID size → -60 < size) :
    ∃ bound, ∀ fuel ≥ bound, UnixArchive.init g fuel d ≠ .error .unfinished := by
  have hforward : ∀ p q, Follows g d p q → p < q := by
    rintro p q ⟨k, member, rfl, hmember⟩
    cases hmember with
    | symdef htext _ _ =>
      have hsize := hsizes _ _ _ htext
      omega
    | macho htext _ _ _ _ _ _ _ => omega
  rw [archive_finishes_iff_halts hmagic, memberLoop_halts_iff]
  intro hcycles
  obtain ⟨p, -, hcycle⟩ := (memberLoop_cycles_iff 8).mp hcycles
  have hlater : Relation.TransGen (· < ·) p p := hcycle.lift id hforward
  rw [Relation.transGen_eq_self] at hlater
  exact Int.lt_irrefl p hlater

end Mocha
