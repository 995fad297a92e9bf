import Mocha.Components.Relocation
import Mocha.Helpers.Layout

/-!
# The sections of relocation entries

`relocationTable` takes the entries of all sections as one block and keeps only how many each section
has; `RelocationTable.runInitializing` counts them off again. `RelocationsFollow start hs` is what the
first pass checks: the entries of the sections `hs` follow each other in the file from `start` on.

**`relocationTable_attributed`**: every entry is decoded from its eight bytes as `struct
relocation_info` has it, and has the name of a section whose own entries these bytes are among.
-/

namespace Mocha

open Lib Data DataShifter

/-! ## One entry -/

/-- The entry at the offset `k` of `d`. -/
def RelocationEntry.layout (d : Data) (k : Nat) (sectionName : String) : RelocationEntry where
  address := d.uint32At k
  symbolNum := (d.numAt (k + 4) 3).map UInt32.ofNat
  sectionName := sectionName
  pcRelocated := (d.uint8At (k + 7)).map fun b => b &&& 0b00000001 != 0
  length := (0b00000001 : UInt8) <<< (((d.uint8At (k + 7)).value &&& 0b00000110) >>> 1)
  isExternal := (d.uint8At (k + 7)).value &&& 0b00001000 != 0
  type := ((d.uint8At (k + 7)).value &&& 0b11110000) >>> 4

/-- The entry at `k` as `struct relocation_info` has it: an address, and the bit fields of a second
word. -/
structure RelocationEntry.Decodes (e : RelocationEntry) (d : Data) (k : Nat) : Prop where
  address : e.address.value = (d.uint32At k).value
  symbolNum : e.symbolNum.value.toNat = (d.uint32At (k + 4)).value.toNat % 2 ^ 24
  pcRelocated : e.pcRelocated.value = (d.uint32At (k + 4)).value.toNat.testBit 24
  length : e.length.toNat = 2 ^ ((d.uint32At (k + 4)).value.toNat / 2 ^ 25 % 4)
  isExternal : e.isExternal = (d.uint32At (k + 4)).value.toNat.testBit 27
  type : e.type.toNat = (d.uint32At (k + 4)).value.toNat / 2 ^ 28

theorem uint32_threeBytes {d : Data} {k : Nat} (hk : k + 3 ≤ d.count) :
    (Data.mk (d.window k 3).startIndex ((d.window k 3).bytes ++ [0])).uint32 =
      .ok ⟨UInt32.ofNat (d.numAt k 3).value, Span.of (d.startIndex + k) 4⟩ := by
  have hlength : (d.window k 3).bytes.length = 3 := d.window_count hk
  have hcast : (Data.mk (d.window k 3).startIndex ((d.window k 3).bytes ++ [0])).cast 4 =
      .ok ⟨leNat ((d.window k 3).bytes ++ [0]), Span.of (d.startIndex + k) 4⟩ := by
    rw [cast_eq_ok]
    simp [Data.count, Data.span, hlength]
  rw [uint32, hcast, ok_bind, leNat_append]
  rfl

theorem relocationEntry_init {d : Data} {k : Nat} (hk : k + 8 ≤ d.count) (name : String) :
    RelocationEntry.init (d.window k 8) name = .ok (.layout d k name) := by
  have hcount : (d.window k 8).count = 8 := d.window_count hk
  have haddress : (d.window k 8).subSequence 0 4 = .ok (d.window k 4) := by
    rw [subSequence_ok (by decide) (by omega), d.window_window (by decide)]
    rfl
  have hlow : (d.window k 8).subSequence 4 3 = .ok (d.window (k + 4) 3) := by
    rw [subSequence_ok (by decide) (by omega), d.window_window (by decide)]
  have hlast : (d.window k 8).subSequence 7 1 = .ok (d.window (k + 7) 1) := by
    rw [subSequence_ok (by decide) (by omega), d.window_window (by decide)]
  unfold RelocationEntry.init
  simp only [haddress, hlow, hlast, ok_bind, uint32_window (d := d) (k := k) (by omega),
    uint32_threeBytes (d := d) (k := k + 4) (by omega), uint8_window (d := d) (k := k + 7) (by omega),
    window_span d (k := k + 4) (n := 3) (by omega), pure_eq_ok]
  rfl

/-- The flags of a byte, as bits of the word it ends. -/
theorem relocationFlags (b : UInt8) :
    (b &&& 0b00000001 != 0) = b.toNat.testBit 0 ∧
      ((0b00000001 : UInt8) <<< ((b &&& 0b00000110) >>> 1)).toNat = 2 ^ (b.toNat / 2 % 4) ∧
      (b &&& 0b00001000 != 0) = b.toNat.testBit 3 ∧
      ((b &&& 0b11110000) >>> 4).toNat = b.toNat / 16 := by
  have hall : ∀ n < 256, let b := UInt8.ofNat n
      (b &&& 0b00000001 != 0) = n.testBit 0 ∧
        ((0b00000001 : UInt8) <<< ((b &&& 0b00000110) >>> 1)).toNat = 2 ^ (n / 2 % 4) ∧
        (b &&& 0b00001000 != 0) = n.testBit 3 ∧ ((b &&& 0b11110000) >>> 4).toNat = n / 16 := by
    decide +kernel
  have hb := hall b.toNat b.toNat_lt
  rwa [UInt8.ofNat_toNat] at hb

/-- The second word of an entry: its three low bytes and its last one. -/
theorem uint32At_last {d : Data} {k : Nat} (hk : k + 4 ≤ d.count) :
    (d.uint32At k).value.toNat = (d.numAt k 3).value + 2 ^ 24 * (d.uint8At (k + 3)).value.toNat ∧
      (d.numAt k 3).value < 2 ^ 24 := by
  have hthree : (d.window k 3).bytes.length = 3 := d.window_count (by omega)
  have hone : (d.window (k + 3) 1).bytes.length = 1 := d.window_count (by omega)
  have hlow := leNat_lt (d.window k 3).bytes
  have hhigh := leNat_lt (d.window (k + 3) 1).bytes
  rw [hthree] at hlow
  rw [hone] at hhigh
  have hsplit : leNat (d.window k 4).bytes =
      leNat (d.window k 3).bytes + 256 ^ 3 * leNat (d.window (k + 3) 1).bytes := by
    rw [show 4 = 3 + 1 from rfl, window_append, leNat_append, hthree]
  have hbyte : (d.uint8At (k + 3)).value.toNat = leNat (d.window (k + 3) 1).bytes :=
    UInt8.toNat_ofNat_of_lt hhigh
  refine ⟨?_, hlow⟩
  change (UInt32.ofNat (leNat (d.window k 4).bytes)).toNat = leNat (d.window k 3).bytes + _
  rw [hbyte, hsplit, UInt32.toNat_ofNat', Nat.mod_eq_of_lt (by omega)]
  rfl

/-- **An entry is decoded from its two words.** -/
theorem relocationEntry_decodes {d : Data} {k : Nat} (hk : k + 8 ≤ d.count) (name : String) :
    (RelocationEntry.layout d k name).Decodes d k := by
  obtain ⟨hword, hlow⟩ := uint32At_last (d := d) (k := k + 4) (by omega)
  obtain ⟨hpc, hlength, hextern, htype⟩ := relocationFlags (d.uint8At (k + 7)).value
  have hlast : (d.uint32At (k + 4)).value.toNat / 2 ^ 24 = (d.uint8At (k + 7)).value.toNat := by
    rw [hword, Nat.add_mul_div_left _ _ (by decide), Nat.div_eq_of_lt hlow, Nat.zero_add]
  have hbit : ∀ i, (d.uint32At (k + 4)).value.toNat.testBit (24 + i) =
      (d.uint8At (k + 7)).value.toNat.testBit i := by
    intro i
    rw [← hlast, Nat.testBit_div_two_pow, Nat.add_comm 24 i]
  constructor
  · rfl
  · rw [hword, Nat.add_mul_mod_self_left, Nat.mod_eq_of_lt hlow]
    exact UInt32.toNat_ofNat_of_lt (Nat.lt_trans hlow (by decide))
  · exact hpc.trans (hbit 0).symm
  · refine hlength.trans ?_
    rw [← hlast, Nat.div_div_eq_div_mul]
    rfl
  · exact hextern.trans (hbit 3).symm
  · refine htype.trans ?_
    rw [← hlast, Nat.div_div_eq_div_mul]
    rfl

/-! ## The second pass -/

/-- The entries with the given section names, one behind the other from `k` on. -/
def relocationsAt (d : Data) : Nat → List String → List RelocationEntry
  | _, [] => []
  | k, name :: names => .layout d k name :: relocationsAt d (k + 8) names

/-- The section names of the entries a section has. -/
def RelocationInfo.names (info : RelocationInfo) : List String :=
  List.replicate info.numberOfEntries info.sectionName

section Reading

variable {d : Data}

theorem relocationsAt_append (names others : List String) : ∀ k,
    relocationsAt d k (names ++ others) =
      relocationsAt d k names ++ relocationsAt d (k + 8 * names.length) others := by
  induction names with
  | nil => exact fun k => rfl
  | cons name names ih =>
    intro k
    rw [List.cons_append, relocationsAt, ih, relocationsAt, List.cons_append, List.length_cons,
      Nat.mul_add_one, ← Nat.add_assoc, Nat.add_right_comm]

theorem relocationsAt_getElem? (names : List String) : ∀ k i,
    (relocationsAt d k names)[i]? = names[i]?.map (RelocationEntry.layout d (k + 8 * i)) := by
  induction names with
  | nil => exact fun k i => rfl
  | cons name names ih =>
    intro k i
    cases i with
    | zero => rfl
    | succ i =>
      rw [relocationsAt, List.getElem?_cons_succ, List.getElem?_cons_succ, ih, Nat.mul_add_one,
        ← Nat.add_assoc, Nat.add_right_comm]

theorem length_relocationsAt (names : List String) : ∀ k,
    (relocationsAt d k names).length = names.length := by
  induction names with
  | nil => exact fun k => rfl
  | cons name names ih =>
    intro k
    rw [relocationsAt, List.length_cons, ih, List.length_cons]

theorem readRelocations_eq (name : String) (n : Nat) : ∀ {k}, k + 8 * n ≤ d.count →
    readRelocations name n (cursor d k) =
      .ok (relocationsAt d k (List.replicate n name), cursor d (k + 8 * n)) := by
  induction n with
  | zero => exact fun _ => rfl
  | succ n ih =>
    intro k hk
    have hshift : (cursor d k).shift (.rawNumber entrySize) = .ok (d.window k 8, cursor d (k + 8)) :=
      shift_ok rfl (by decide) (by omega)
    have hentry := relocationEntry_init (d := d) (k := k) (by omega) name
    have hend : k + 8 + 8 * n = k + 8 * (n + 1) := by omega
    unfold readRelocations
    simp only [hshift, ok_bind, hentry, ih (k := k + 8) (by omega), hend, pure_eq_ok]
    rw [List.replicate_succ, relocationsAt]

/-- **The second pass** reads an entry for each name the sections have. -/
theorem readRelocationInfos_eq (infos : List RelocationInfo) : ∀ {k},
    k + 8 * (infos.flatMap RelocationInfo.names).length ≤ d.count →
    readRelocationInfos infos (cursor d k) =
      .ok (relocationsAt d k (infos.flatMap RelocationInfo.names)) := by
  induction infos with
  | nil => exact fun _ => rfl
  | cons info infos ih =>
    intro k hk
    rw [List.flatMap_cons, List.length_append, RelocationInfo.names, List.length_replicate] at hk
    have hfirst := readRelocations_eq (d := d) info.sectionName info.numberOfEntries (k := k) (by omega)
    unfold readRelocationInfos
    simp only [hfirst, ok_bind, ih (k := k + 8 * info.numberOfEntries) (by omega), pure_eq_ok]
    rw [List.flatMap_cons, RelocationInfo.names, relocationsAt_append, List.length_replicate]

end Reading

/-! ## The first pass -/

/-- The relocation entries of the sections follow each other from `start` on. -/
def RelocationsFollow : Nat → List SectionHeader → Prop
  | _, [] => True
  | start, h :: hs => h.fileOffsetOfRelocationEntries.value.toNat = start ∧
    RelocationsFollow (start + 8 * h.relocationInfo.numberOfEntries) hs

/-- **The first pass** goes through only if the entries follow each other. -/
theorem scanRelocations_follow : ∀ {hs : List SectionHeader} {s t : RelocationScan},
    hs.foldlM RelocationScan.step s = .ok t →
      (s.startOffsetInMacho = none → s.numberOfAllEntries = 0) →
      ∀ start ∈ t.startOffsetInMacho, RelocationsFollow (start + 8 * s.numberOfAllEntries)
        (hs.filter SectionHeader.hasRelocations)
  | [], s, t, h, _ => fun _ _ => trivial
  | header :: hs, s, t, h, hfresh => by
    rw [List.foldlM_cons, bind_eq_ok] at h
    obtain ⟨u, hu, h⟩ := h
    intro start hstart
    rcases relocationScan_step_eq_ok hu with ⟨hr, rfl⟩ | ⟨hr, hnext, hstart', hcount', -⟩
    · rw [List.filter_cons_of_neg (by rw [hr]; exact Bool.false_ne_true)]
      exact scanRelocations_follow h hfresh start hstart
    · have hset : u.startOffsetInMacho = none → u.numberOfAllEntries = 0 := by
        intro hnone
        rw [hstart'] at hnone
        cases hnone
      have hrest := scanRelocations_follow h hset start hstart
      rw [(scanRelocations_eq_ok h).1, hstart', Option.some_or] at hstart
      cases hstart
      rw [List.filter_cons_of_pos hr]
      refine ⟨?_, by rwa [hcount', Nat.mul_add, ← Nat.add_assoc] at hrest⟩
      -- the first section gives the start, and each later one is checked against it
      cases hs : s.startOffsetInMacho with
      | none =>
        rw [hfresh hs]
        rfl
      | some start =>
        rw [← hnext start hs, entrySize, Nat.mul_comm]
        rfl

/-- An entry lies among those of the section whose name it has. -/
theorem RelocationsFollow.section_of_name : ∀ {hs : List SectionHeader} {start k : Nat} {name : String},
    RelocationsFollow start hs →
    ((hs.map SectionHeader.relocationInfo).flatMap RelocationInfo.names)[k]? = some name →
    ∃ h ∈ hs, h.fileOffsetOfRelocationEntries.value.toNat ≤ start + 8 * k ∧
      start + 8 * k < h.fileOffsetOfRelocationEntries.value.toNat +
        8 * h.numberOfRelocatioEntries.value.toNat ∧ name = h.section_.value
  | [], start, k, name, _, hname => by cases hname
  | header :: hs, start, k, name, hfollow, hname => by
    obtain ⟨hoffset, hrest⟩ := hfollow
    change header.fileOffsetOfRelocationEntries.value.toNat = start at hoffset
    rw [List.map_cons, List.flatMap_cons, List.getElem?_append, RelocationInfo.names,
      List.length_replicate] at hname
    by_cases hk : k < header.relocationInfo.numberOfEntries
    · rw [if_pos hk, List.getElem?_replicate, if_pos hk] at hname
      cases hname
      change k < header.numberOfRelocatioEntries.value.toNat at hk
      exact ⟨header, List.mem_cons_self, by omega, by omega, rfl⟩
    · rw [if_neg hk] at hname
      obtain ⟨h, hmem, hlow, hhigh, heq⟩ := hrest.section_of_name hname
      exact ⟨h, List.mem_cons_of_mem header hmem, by omega, by omega, heq⟩

theorem scanRelocations_skip {hs : List SectionHeader} (s : RelocationScan)
    (h : ∀ x ∈ hs, x.hasRelocations = false) : hs.foldlM RelocationScan.step s = .ok s := by
  induction hs with
  | nil => rfl
  | cons header hs ih =>
    rw [List.forall_mem_cons] at h
    have hstep : s.step header = .ok s := by
      unfold RelocationScan.step
      rw [h.1]
      rfl
    rw [List.foldlM_cons, hstep, ok_bind, ih h.2]

/-- There is no table iff no section has relocation entries. -/
theorem relocationTable_eq_none {c : LCSegment} {machoData : Data} :
    c.relocationTable machoData = .ok none ↔ ∀ h ∈ c.sectionHeaders, h.hasRelocations = false := by
  constructor
  · intro h
    rcases relocationTable_eq_ok h with ⟨-, hempty⟩ | ⟨start, -, -, hsome⟩
    · intro x hx
      by_contra hr
      have hmem : x ∈ c.relocated := List.mem_filter.mpr ⟨hx, by simpa using hr⟩
      rw [hempty] at hmem
      cases hmem
    · cases hsome
  · intro h
    unfold LCSegment.relocationTable
    rw [scanRelocations_skip _ h]
    rfl

/-- A table is the block of entries that follow each other from its start on. -/
theorem relocationTable_follow {c : LCSegment} {machoData d : Data} {infos : List RelocationInfo}
    (h : c.relocationTable machoData = .ok (some (d, infos))) :
    ∃ start, RelocationsFollow start c.relocated ∧
      start + entrySize * relocationCount c.relocated ≤ machoData.count ∧
      d = machoData.window start (entrySize * relocationCount c.relocated) ∧
      infos = c.relocated.map SectionHeader.relocationInfo := by
  rcases relocationTable_eq_ok h with ⟨hnone, -⟩ | ⟨start, hstart, hfit, hsome⟩
  · cases hnone
  · cases hsome
    refine ⟨start, ?_, hfit, rfl, rfl⟩
    unfold LCSegment.relocationTable at h
    rw [bind_eq_ok] at h
    obtain ⟨scan, hscan, -⟩ := h
    have hscanned : start ∈ scan.startOffsetInMacho := (scanRelocations_eq_ok hscan).1.trans hstart
    exact scanRelocations_follow hscan (fun _ => rfl) start hscanned

theorem hasRelocations_eq_false {h : SectionHeader} : h.hasRelocations = false ↔
    h.fileOffsetOfRelocationEntries.value = 0 ∨ h.numberOfRelocatioEntries.value = 0 := by
  have hzero : ∀ x : UInt32, x.toNat = 0 ↔ x = 0 := fun x => UInt32.toNat_inj (b := 0)
  unfold SectionHeader.hasRelocations
  rw [Bool.and_eq_false_iff, bne_eq_false_iff_eq, bne_eq_false_iff_eq, hzero, hzero]

theorem RelocationEntry.Decodes.of_window {e : RelocationEntry} {d : Data} {start n k : Nat}
    (h : e.Decodes (d.window start n) k) (hk : k + 8 ≤ n) : e.Decodes d (start + k) := by
  have hsecond : (d.window start n).uint32At (k + 4) = d.uint32At (start + k + 4) :=
    d.uint32At_window (by omega)
  obtain ⟨haddress, hsymbol, hpc, hlength, hextern, htype⟩ := h
  rw [d.uint32At_window (by omega)] at haddress
  rw [hsecond] at hsymbol hpc hlength hextern htype
  exact ⟨haddress, hsymbol, hpc, hlength, hextern, htype⟩

theorem length_relocationNames (hs : List SectionHeader) :
    ((hs.map SectionHeader.relocationInfo).flatMap RelocationInfo.names).length = relocationCount hs := by
  simp only [List.length_flatMap, List.map_map, relocationCount, RelocationInfo.names, Function.comp_def,
    List.length_replicate]

/-- **Relocation entries are attributed to their sections.** A segment has no table iff no section has
entries. Otherwise there are as many entries as the sections have together; each one is decoded from the
eight bytes at its place in the file and has the name of a section to whose entries they belong. -/
theorem relocationTable_attributed (c : LCSegment) (machoData : Data) :
    (c.relocationTable machoData = .ok none ↔ ∀ h ∈ c.sectionHeaders,
      h.fileOffsetOfRelocationEntries.value = 0 ∨ h.numberOfRelocatioEntries.value = 0) ∧
    ∀ d infos, c.relocationTable machoData = .ok (some (d, infos)) →
      ∃ start entries, d.startIndex = machoData.startIndex + start ∧
        initRelocations infos d = .ok entries ∧
        entries.length = ((c.sectionHeaders.filter SectionHeader.hasRelocations).map
          fun h => h.numberOfRelocatioEntries.value.toNat).sum ∧
        ∀ k e, entries[k]? = some e → e.Decodes machoData (start + 8 * k) ∧
          ∃ h ∈ c.sectionHeaders, h.fileOffsetOfRelocationEntries.value.toNat ≤ start + 8 * k ∧
            start + 8 * k < h.fileOffsetOfRelocationEntries.value.toNat +
              8 * h.numberOfRelocatioEntries.value.toNat ∧ e.sectionName = h.section_.value := by
  refine ⟨by simp only [relocationTable_eq_none, hasRelocations_eq_false], fun d infos h => ?_⟩
  obtain ⟨start, hfollow, hfit, rfl, rfl⟩ := relocationTable_follow h
  have hcount := machoData.window_count hfit
  have hnames := length_relocationNames c.relocated
  refine ⟨start, _, rfl, readRelocationInfos_eq (k := 0) _ ?_, ?_, fun k e he => ?_⟩
  · rw [hnames, hcount, Nat.zero_add]
    exact Nat.le_refl _
  · rw [length_relocationsAt, hnames]
    rfl
  · rw [relocationsAt_getElem?, Nat.zero_add, Option.map_eq_some_iff] at he
    obtain ⟨name, hname, rfl⟩ := he
    have hk : k < relocationCount c.relocated := by
      rw [← hnames]
      exact (List.getElem?_eq_some_iff.mp hname).1
    have hin : 8 * k + 8 ≤ entrySize * relocationCount c.relocated := by
      unfold entrySize
      omega
    refine ⟨(relocationEntry_decodes (by rwa [hcount]) name).of_window hin, ?_⟩
    obtain ⟨x, hx, hlow, hhigh, heq⟩ := hfollow.section_of_name hname
    exact ⟨x, List.mem_of_mem_filter hx, hlow, hhigh, heq⟩

/-- A section with `number` relocation entries at `offset`. -/
def relocatedSection (name : String) (offset number : UInt32) : SectionHeader :=
  let word : Field UInt32 := ⟨0, ⟨0, 0⟩⟩
  ⟨word.map fun _ => "__TEXT", word.map fun _ => name, word.map fun _ => 0, word.map fun _ => 0, word, word,
    word.map fun _ => offset, word.map fun _ => number, word.map fun _ => .S_REGULAR, word.map fun _ => ⟨0⟩,
    word, word, some word, true⟩

/-- A segment of two sections with one entry each, and one without between them. -/
def relocatedSegment : LCSegment :=
  let word : Field UInt32 := ⟨0, ⟨0, 0⟩⟩
  let quad : Field UInt64 := ⟨0, ⟨0, 0⟩⟩
  ⟨true, word.map fun _ => "__TEXT", quad, quad, quad, quad, word, word, word, word,
    [relocatedSection "__text" 4 1, relocatedSection "__bss" 0 0, relocatedSection "__const" 12 1]⟩

/-- Two entries behind four bytes: symbol 1 with type 2, symbol 2 external and of eight bytes. -/
def relocatedFile : Data :=
  ⟨0, [0, 0, 0, 0] ++ [16, 0, 0, 0, 1, 0, 0, 0x20] ++ [32, 0, 0, 0, 2, 0, 0, 0x0e]⟩

theorem relocationTable_attributed_relocatedSegment :
    ∃ entries, initRelocations [⟨1, "__text"⟩, ⟨1, "__const"⟩] (relocatedFile.window 4 16) = .ok entries ∧
      entries.length = 2 := by
  have htable : relocatedSegment.relocationTable relocatedFile =
      .ok (some (relocatedFile.window 4 16, [⟨1, "__text"⟩, ⟨1, "__const"⟩])) := by decide +kernel
  obtain ⟨-, htables⟩ := relocationTable_attributed relocatedSegment relocatedFile
  obtain ⟨start, entries, -, hentries, hlength, -⟩ := htables _ _ htable
  exact ⟨entries, hentries, hlength⟩

end Mocha
