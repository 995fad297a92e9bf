import Mocha.Components.ExportWalk
import Mocha.Macho.Slices

/-!
# The two commands with an export trie

The trie of a file is found through `LC_DYLD_INFO` (`LCDyldInfo.dyldInfoComponents`) or through
`LC_DYLD_EXPORTS_TRIE` (`LCLinkedITData.linkedITComponent`). Both cut out a component of the same kind
and `runInitializing` decodes it. The first makes no component for a size of zero; the second makes an
empty one, and decoding it reads past its end.

**`exportRoutes_agree_iff`**: for a range that lies in the file, the two give the same nodes iff the
range is not empty.
-/

namespace Mocha

open Lib Data

/-- `ExportInfoComponent`s. -/
def MachoComponent.isExportInfo (c : MachoComponent) : Bool :=
  match c.kind with
  | .exportInfo _ => true
  | _ => false

/-- `exportInfoNodes` after `runInitializing()`. -/
def exportNodes (stack : Nat) (v : MachoView) (c : MachoComponent) : Run (List ExportInfoNode) := do
  let s ← c.runInitializing stack v
  return s.exportInfoNodes

/-- The nodes of the export info that `LC_DYLD_INFO` has, none without such a component. -/
def dyldInfoRoute (stack : Nat) (v : MachoView) (machoData : Data) (is64Bit : Bool) (c : LCDyldInfo) :
    Run (List ExportInfoNode) := do
  let components ← c.dyldInfoComponents machoData is64Bit
  let nodes ← (components.filter MachoComponent.isExportInfo).mapM (exportNodes stack v)
  return nodes.flatten

/-- The nodes of the export info that `LC_DYLD_EXPORTS_TRIE` has. -/
def exportsTrieRoute (stack : Nat) (v : MachoView) (machoData : Data) (is64Bit : Bool) (title : String)
    (textSegment : Option LCSegment) (c : LCLinkedITData) : Run (List ExportInfoNode) := do
  let component ← c.linkedITComponent .dyldExportsTrie title machoData is64Bit textSegment
  exportNodes stack v component

/-- The same nodes, or both traps. -/
def SameNodes (x y : Run (List ExportInfoNode)) : Prop :=
  (∀ nodes, x = .ok nodes ↔ y = .ok nodes) ∧ ((∃ t, x = .error t) ↔ ∃ t, y = .error t)

/-- A block of `dyldInfoComponents` that is left out, or lies in the file. -/
def BlockFits (machoData : Data) (b : Nat × Nat × String × ComponentKind) : Prop :=
  b.1 = 0 ∨ b.2.1 = 0 ∨ b.1 + b.2.1 ≤ machoData.count

section Routes

variable {stack : Nat} {v : MachoView} {machoData : Data} {is64Bit : Bool}

theorem exportNodes_eq {title : String} {subTitle : Option String} {d : Data} :
    exportNodes stack v ⟨title, subTitle, d, .exportInfo is64Bit⟩ = initExportInfo stack d := by
  unfold exportNodes MachoComponent.runInitializing
  simp only
  cases initExportInfo stack d <;> rfl

theorem dyldInfoComponent_total {b : Nat × Nat × String × ComponentKind} (h : BlockFits machoData b) :
    ∃ c, dyldInfoComponent machoData b.1 b.2.1 b.2.2.1 b.2.2.2 = .ok c := by
  unfold dyldInfoComponent
  split
  · rename_i hpresent
    have hfit : b.1 + b.2.1 ≤ machoData.count := by
      rcases h with h | h | h
      · exact absurd h hpresent.1
      · exact absurd h hpresent.2
      · exact h
    rw [subSequence_ok (Nat.pos_of_ne_zero hpresent.2) hfit]
    exact ⟨_, rfl⟩
  · exact ⟨none, rfl⟩

/-- The components of a dyld-info command: those of the opcodes, and the export info. -/
theorem dyldInfoComponents_eq {c : LCDyldInfo}
    (h : ∀ b ∈ (c.blocks is64Bit).dropLast, BlockFits machoData b) :
    ∃ opcodes : List MachoComponent, opcodes.filter MachoComponent.isExportInfo = [] ∧
      c.dyldInfoComponents machoData is64Bit =
        dyldInfoComponent machoData c.exportOffset.value.toNat c.exportSize.value.toNat "Export Info"
          (.exportInfo is64Bit) >>= fun e => .ok (opcodes ++ e.toList) := by
  have hlist : c.blocks is64Bit = (c.blocks is64Bit).dropLast ++ [(c.exportOffset.value.toNat,
    c.exportSize.value.toNat, "Export Info", .exportInfo is64Bit)] := rfl
  have hkinds : ∀ b ∈ (c.blocks is64Bit).dropLast, ∀ title d,
      MachoComponent.isExportInfo ⟨title, none, d, b.2.2.2⟩ = false := by
    simp [LCDyldInfo.blocks, MachoComponent.isExportInfo]
  obtain ⟨options, hoptions, hall⟩ : ∃ options, (c.blocks is64Bit).dropLast.mapM
        (fun b => dyldInfoComponent machoData b.1 b.2.1 b.2.2.1 b.2.2.2) = .ok options ∧
      List.Forall₂ (fun _ (o : Option MachoComponent) => ∀ x, o = some x → x.isExportInfo = false)
        (c.blocks is64Bit).dropLast options := by
    refine mapM_total ?_
    intro b hb
    obtain ⟨o, ho⟩ := dyldInfoComponent_total (h b hb)
    refine ⟨o, ho, ?_⟩
    rintro x rfl
    have hkind := dyldInfoComponent_kind ho
    unfold MachoComponent.isExportInfo
    rw [hkind]
    exact hkinds b hb x.title x.data
  refine ⟨options.reduceOption, ?_, ?_⟩
  · simp only [List.filter_eq_nil_iff, List.reduceOption_mem_iff, Bool.not_eq_true]
    intro x hx
    obtain ⟨b, -, hb⟩ := forall₂_exists_left hall hx
    exact hb x rfl
  · unfold LCDyldInfo.dyldInfoComponents
    rw [hlist, List.mapM_append, hoptions, List.mapM_cons, List.mapM_nil]
    generalize dyldInfoComponent machoData _ _ "Export Info" _ = e
    cases e with
    | error t => rfl
    | ok o =>
      change Except.ok (options ++ [o]).reduceOption = Except.ok (options.reduceOption ++ o.toList)
      rw [List.reduceOption_append]
      cases o <;> rfl

/-- What `LC_DYLD_INFO` leads to. -/
theorem dyldInfoRoute_eq {c : LCDyldInfo} (h : ∀ b ∈ (c.blocks is64Bit).dropLast, BlockFits machoData b)
    (hoffset : c.exportOffset.value.toNat ≠ 0)
    (hfit : c.exportOffset.value.toNat + c.exportSize.value.toNat ≤ machoData.count) :
    dyldInfoRoute stack v machoData is64Bit c =
      if c.exportSize.value.toNat = 0 then .ok []
      else initExportInfo stack
        (machoData.window c.exportOffset.value.toNat c.exportSize.value.toNat) := by
  obtain ⟨opcodes, hopcodes, heq⟩ := dyldInfoComponents_eq h
  unfold dyldInfoRoute dyldInfoComponent at *
  rw [heq]
  by_cases hsize : c.exportSize.value.toNat = 0
  · simp [hsize, hopcodes]
  · have hpresent : c.exportOffset.value.toNat ≠ 0 ∧ c.exportSize.value.toNat ≠ 0 := ⟨hoffset, hsize⟩
    rw [if_neg hsize, if_pos hpresent, subSequence_ok (Nat.pos_of_ne_zero hsize) hfit]
    simp only [ok_bind, pure_eq_ok, Option.toList_some, List.filter_append, hopcodes, List.nil_append]
    change ([_].mapM (exportNodes stack v) >>= _) = _
    rw [List.mapM_cons, exportNodes_eq]
    cases initExportInfo stack _ with
    | error t => rfl
    | ok nodes => exact congrArg Except.ok (List.append_nil nodes)

/-- What `LC_DYLD_EXPORTS_TRIE` leads to. -/
theorem exportsTrieRoute_eq {c : LCLinkedITData} {title : String} {textSegment : Option LCSegment}
    (hfit : c.containedDataFileOffset.value.toNat + c.containedDataSize.value.toNat ≤ machoData.count) :
    exportsTrieRoute stack v machoData is64Bit title textSegment c =
      initExportInfo stack (machoData.window c.containedDataFileOffset.value.toNat
        c.containedDataSize.value.toNat) := by
  unfold exportsTrieRoute LCLinkedITData.linkedITComponent
  rw [subSequenceAllowing_eq_ok.mpr ⟨.inl rfl, hfit, rfl⟩]
  exact exportNodes_eq

/-- An empty component cannot be decoded. -/
theorem initExportInfo_ne_nil {d : Data} {nodes : List ExportInfoNode}
    (h : initExportInfo stack d = .ok nodes) : d.bytes ≠ [] := by
  rw [initExportInfo_eq, bind_eq_ok] at h
  obtain ⟨root, hroot, -⟩ := h
  obtain ⟨-, size, -, -, -, -, hsize, -⟩ := readNode_eq_ok.mp hroot
  obtain ⟨bs, hbs, hleb, -⟩ := readULEB128_eq_ok.mp hsize
  have hpos := hleb.length_pos
  have hle := hbs.1
  exact List.ne_nil_of_length_pos (Nat.lt_of_lt_of_le (by omega) hle)

/-- **The two commands lead to the same nodes** iff the range is not empty. -/
theorem exportRoutes_agree_iff {c : LCDyldInfo} {l : LCLinkedITData} {title : String}
    {textSegment : Option LCSegment} (hl : l.containedDataFileOffset.value = c.exportOffset.value ∧
      l.containedDataSize.value = c.exportSize.value)
    (hoffset : c.exportOffset.value ≠ 0)
    (hfit : c.exportOffset.value.toNat + c.exportSize.value.toNat ≤ machoData.count)
    (hblocks : ∀ b ∈ (c.blocks is64Bit).dropLast, BlockFits machoData b) :
    SameNodes (dyldInfoRoute stack v machoData is64Bit c)
        (exportsTrieRoute stack v machoData is64Bit title textSegment l) ↔
      c.exportSize.value ≠ 0 := by
  have hne : c.exportOffset.value.toNat ≠ 0 := fun h => hoffset (UInt32.toNat_inj.mp h)
  rw [dyldInfoRoute_eq hblocks hne hfit, exportsTrieRoute_eq (by rw [hl.1, hl.2]; exact hfit), hl.1, hl.2]
  by_cases hsize : c.exportSize.value = 0
  · refine iff_of_false ?_ (not_not.mpr hsize)
    rw [hsize]
    rintro ⟨hnodes, -⟩
    have hdecoded := (hnodes []).mp rfl
    refine initExportInfo_ne_nil hdecoded ?_
    simp [Data.window]
  · have hpos : c.exportSize.value.toNat ≠ 0 := fun h => hsize (UInt32.toNat_inj.mp h)
    rw [if_neg hpos]
    exact iff_of_true ⟨fun _ => Iff.rfl, Iff.rfl⟩ hsize

end Routes

/-- A file with a trie of one node at 4. -/
def trieFile : Data := ⟨0, [0xff, 0xff, 0xff, 0xff, 0x00, 0x00]⟩

/-- A dyld-info command with nothing but export info at 4. -/
def trieDyldInfo (size : UInt32) : LCDyldInfo :=
  let absent : Field UInt32 := ⟨0, ⟨0, 0⟩⟩
  ⟨absent, absent, absent, absent, absent, absent, absent, absent, ⟨4, ⟨40, 44⟩⟩, ⟨size, ⟨44, 48⟩⟩⟩

/-- An exports-trie command for the same range. -/
def trieLinkedITData (size : UInt32) : LCLinkedITData := ⟨⟨4, ⟨8, 12⟩⟩, ⟨size, ⟨12, 16⟩⟩⟩

theorem trieDyldInfo_fits (size : UInt32) :
    ∀ b ∈ ((trieDyldInfo size).blocks true).dropLast, BlockFits trieFile b := by
  simp [LCDyldInfo.blocks, trieDyldInfo, BlockFits]

theorem exportRoutes_agree_iff_trieFile :
    SameNodes (dyldInfoRoute 1 .empty trieFile true (trieDyldInfo 2))
        (exportsTrieRoute 1 .empty trieFile true "LC_DYLD_EXPORTS_TRIE" none (trieLinkedITData 2)) ∧
      (dyldInfoRoute 1 .empty trieFile true (trieDyldInfo 2)).map List.length = .ok 1 :=
  ⟨(exportRoutes_agree_iff ⟨rfl, rfl⟩ (by decide) (by decide) (trieDyldInfo_fits 2)).mpr (by decide),
    by decide +kernel⟩

/-- With a size of zero the one command has no export info, and decoding that of the other traps. -/
theorem emptyTrie_routes_differ :
    dyldInfoRoute 1 .empty trieFile true (trieDyldInfo 0) = .ok [] ∧
      exportsTrieRoute 1 .empty trieFile true "LC_DYLD_EXPORTS_TRIE" none (trieLinkedITData 0) =
        .error .outOfBounds ∧
      ¬ SameNodes (dyldInfoRoute 1 .empty trieFile true (trieDyldInfo 0))
        (exportsTrieRoute 1 .empty trieFile true "LC_DYLD_EXPORTS_TRIE" none (trieLinkedITData 0)) := by
  have hdyld : dyldInfoRoute 1 .empty trieFile true (trieDyldInfo 0) = .ok [] := by decide +kernel
  have htrie : exportsTrieRoute 1 .empty trieFile true "LC_DYLD_EXPORTS_TRIE" none
      (trieLinkedITData 0) = .error .outOfBounds := by decide +kernel
  refine ⟨hdyld, htrie, ?_⟩
  rw [hdyld, htrie]
  rintro ⟨hnodes, -⟩
  cases (hnodes []).mp rfl

end Mocha
