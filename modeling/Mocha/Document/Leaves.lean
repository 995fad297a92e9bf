import Mathlib.Data.List.ReduceOption
import Mocha.Document.Rejection

/-!
# Where the Mach-O files of a document lie

A document is opened through archives and fat files, each of which copies its members before it opens
them. **`Opens.leaves`**: at any nesting, every Mach-O file a document consists of is a part of the file
that was opened, with a magic number, a whole header in front and indices that start at `0`.
-/

namespace Mocha

open Lib DataShifter

/-- The Mach-O file is a part of the data. -/
structure MachoMetaData.PartOf (d : Data) (x : MachoMetaData) : Prop where
  bytes : x.machoData.bytes <:+: d.bytes
  startIndex : x.machoData.startIndex = 0
  magic : x.machoData.starts (machoMagic x.is64Bit) = true
  full : machoHeaderSize x.is64Bit ≤ x.machoData.count
  header : x.machoHeader =
    MachoHeader.layout x.is64Bit (x.machoData.window 0 (machoHeaderSize x.is64Bit))

theorem window_part (d : Data) (k n : Nat) : (d.window k n).bytes <:+: d.bytes :=
  (List.take_prefix n _).isInfix.trans (List.drop_suffix k _).isInfix

theorem MachoMetaData.PartOf.trans {d e : Data} {x : MachoMetaData} (h : x.PartOf e)
    (hpart : e.bytes <:+: d.bytes) : x.PartOf d where
  bytes := h.bytes.trans hpart
  startIndex := h.startIndex
  magic := h.magic
  full := h.full
  header := h.header

section Leaves

variable {g : Segmentation} {name : String}

/-- A turn of the archive loop starts at an offset of the archive. -/
theorem nextMember_cursor {d : Data} {p : Int} {r : Option MachoMetaData} {t : DataShifter}
    (hmore : (UnixArchive.memberLoop g).more ⟨d, p⟩ = true)
    (h : UnixArchive.nextMember g ⟨d, p⟩ = .ok (r, t)) :
    ∃ k : Nat, ∃ next, UnixArchive.MemberAt g d k r next ∧ t = ⟨d, next⟩ := by
  obtain ⟨q, ⟨k, -, rfl, -⟩, -⟩ := (memberLoop_step p t).mp ⟨hmore, r, h⟩
  exact ⟨k, UnixArchive.nextMember_eq_ok.mp h⟩

/-- **The members of an archive** are parts of it. -/
theorem archive_leaves {d : Data} {s u : DataShifter} {members : List (Option MachoMetaData)}
    (h : (UnixArchive.memberLoop g).Turns s members u) (hs : s.data = d) :
    ∀ x, some x ∈ members → x.PartOf d := by
  induction h with
  | nil s => exact fun x hx => absurd hx List.not_mem_nil
  | @cons s t u r members hm hn _ ih =>
    obtain ⟨e, p⟩ := s
    obtain rfl : e = d := hs
    obtain ⟨k, next, hmember, rfl⟩ := nextMember_cursor hm hn
    intro x hx
    rcases List.mem_cons.mp hx with hx | hx
    · subst hx
      cases hmember with
      | @macho fileID name n m htext hname hsymdef hpos hfits is64Bit hmagic hfull =>
        refine ⟨window_part e (k + 60 + n) m, rfl, hmagic, ?_, rfl⟩
        exact hfull.trans_eq (e.window_count hfits).symm
    · exact ih rfl x hx

/-- A slice of a fat file is a part of it, copied. -/
theorem subFileData_part {d e : Data} {index : Nat} (h : FatBinary.subFileData d index = .ok e) :
    e.startIndex = 0 ∧ e.bytes <:+: d.bytes := by
  obtain ⟨-, -, -, rfl⟩ := subFileData_eq_ok.mp h
  exact ⟨rfl, window_part d _ _⟩

mutual

/-- **Every Mach-O file of a document is a part of the file that was opened.** -/
theorem Opens.leaves {d : Data} {metaDatas : List MachoMetaData} :
    Opens g name d metaDatas → d.startIndex = 0 → ∀ x ∈ metaDatas, x.PartOf d
  | .archive _ hturns _, _, x, hx =>
    archive_leaves hturns rfl x (List.reduceOption_mem_iff.mp hx)
  | .fat _ _ harchs, _, x, hx => harchs.leaves x hx
  | .thin is64Bit hmagic hsize, h0, x, hx => by
    obtain rfl := List.mem_singleton.mp hx
    exact ⟨List.infix_rfl, h0, hmagic, hsize, rfl⟩

theorem OpensArchs.leaves {d : Data} {left index : Nat} {metaDatas : List MachoMetaData} :
    OpensArchs g name d left index metaDatas → ∀ x ∈ metaDatas, x.PartOf d
  | .nil _ _, x, hx => absurd hx List.not_mem_nil
  | .cons hsub hopens hrest, x, hx => by
    obtain ⟨h0, hpart⟩ := subFileData_part hsub
    rcases List.mem_append.mp hx with hx | hx
    · exact (hopens.leaves h0 x hx).trans hpart
    · exact hrest.leaves x hx

end

end Leaves

end Mocha
