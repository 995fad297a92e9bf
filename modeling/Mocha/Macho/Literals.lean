import Mocha.Macho.Resolution

/-!
# The strings of literal pointers

A literal pointer is an address, and the string at that address may be in any C-string section of the
file. The sections are asked one after the other, in the order of `allComponents`, until one of them
has a string that starts there.

* `FirstString`: the string the sections hold at an address, in bytes of the file.
* `Asked`: no section whose addresses do not fit into 64 bits is asked, which would trap.
* `findLiteral_eq_ok`: the search returns what the first section has.
* **`literalPointers_resolved`**: whatever the order of the jobs, a section of literal pointers is
  translated exactly if every pointer of it can be asked for, and then shows every pointer with its
  string.
-/

namespace Mocha

open Lib Data DataShifter

/-! ## The strings of the sections -/

theorem PieceReads.unique {d : Data} {o : Nat} {s s' : String} (h : PieceReads d o s)
    (h' : PieceReads d o s') : s = s' := by
  obtain ⟨hstarts, n, hpiece, hread⟩ := h
  obtain ⟨-, n', hpiece', hread'⟩ := h'
  rw [hpiece.unique hstarts hpiece', hread', Option.some_inj] at hread
  exact hread.symm

/-- A C-string section, as it is in the file. -/
structure StringSection where
  baseVirtualAddress : UInt64
  data : Data

namespace StringSection

/-- The end of the section is not a 64-bit address. -/
def Wraps (p : StringSection) : Prop := 2 ^ 64 ≤ p.baseVirtualAddress.toNat + p.data.count

instance (p : StringSection) : Decidable p.Wraps := inferInstanceAs (Decidable (_ ≤ _))

/-- The section has the string at the address: the address is in the section and a piece that reads as
the string starts there. -/
def HasString (p : StringSection) (a : UInt64) (s : String) : Prop :=
  p.baseVirtualAddress.toNat ≤ a.toNat ∧ a.toNat < p.baseVirtualAddress.toNat + p.data.count ∧
    PieceReads p.data (a.toNat - p.baseVirtualAddress.toNat) s

theorem HasString.unique {p : StringSection} {a : UInt64} {s s' : String} (h : p.HasString a s)
    (h' : p.HasString a s') : s = s' :=
  h.2.2.unique h'.2.2

/-- The section, once it is filled in. -/
structure Filled (p : StringSection) (c : CStringSection) : Prop where
  base : c.baseVirtualAddress = p.baseVirtualAddress
  size : c.dataSize = p.data.count
  strings : CStrings.runInitializing p.data = .ok c.cStrings

/-- **One section is asked.** -/
theorem Filled.findString_eq_ok {p : StringSection} {c : CStringSection} (h : p.Filled c) {a : UInt64}
    {found : Option String} :
    c.findString a = .ok found ↔ ¬ p.Wraps ∧ ∀ s, found = some s ↔ p.HasString a s := by
  unfold CStringSection.findString CStrings.findStringAt
  rw [h.base, h.size]
  by_cases hwraps : 2 ^ 64 ≤ p.baseVirtualAddress.toNat + p.data.count
  · rw [if_pos hwraps]
    exact iff_of_false nofun fun hnot => hnot.1 hwraps
  rw [if_neg hwraps]
  by_cases hout : a.toNat < p.baseVirtualAddress.toNat ∨
      p.baseVirtualAddress.toNat + p.data.count ≤ a.toNat
  · have hnone : ∀ s, ¬ p.HasString a s := by
      intro s hs
      have hlower := hs.1
      have hupper := hs.2.1
      omega
    simp only [if_pos hout, pure_eq_ok, Except.ok.injEq]
    constructor
    · rintro rfl
      exact ⟨hwraps, fun s => iff_of_false nofun (hnone s)⟩
    · rintro ⟨-, hfound⟩
      cases found with
      | none => rfl
      | some s => exact absurd ((hfound s).mp rfl) (hnone s)
  · have hin : p.baseVirtualAddress.toNat ≤ a.toNat ∧
        a.toNat < p.baseVirtualAddress.toNat + p.data.count := by omega
    obtain ⟨r, hr, hsome, hnone⟩ :=
      findString_found h.strings (a.toNat - p.baseVirtualAddress.toNat)
    have hreads : ∀ s, r = some s ↔ p.HasString a s := by
      intro s
      constructor
      · exact fun heq => ⟨hin.1, hin.2, hsome s heq⟩
      · intro hs
        cases r with
        | none => exact absurd hs.2.2 (hnone rfl s)
        | some s' => rw [(hsome s' rfl).unique hs.2.2]
    simp only [if_neg hout, hr, pure_eq_ok, Except.ok.injEq]
    constructor
    · rintro rfl
      exact ⟨hwraps, hreads⟩
    · rintro ⟨-, hfound⟩
      refine Option.ext fun s => ?_
      rw [hreads, hfound]

end StringSection

/-! ## The search -/

/-- The first section that has a string at the address has this one. -/
def FirstString (a : UInt64) (ps : List StringSection) (s : String) : Prop :=
  ∃ before p after, ps = before ++ p :: after ∧ p.HasString a s ∧
    ∀ q ∈ before, ∀ s', ¬ q.HasString a s'

/-- Before a section that wraps is asked, another one has a string at the address. -/
def Asked (a : UInt64) (ps : List StringSection) : Prop :=
  ∀ before p after, ps = before ++ p :: after → p.Wraps → ∃ q ∈ before, ∃ s, q.HasString a s

section Search

variable {a : UInt64} {p : StringSection} {ps : List StringSection} {s : String}

theorem not_firstString_nil : ¬ FirstString a [] s := by
  rintro ⟨before, p, after, hps, -⟩
  cases before <;> cases hps

theorem asked_nil : Asked a [] := by
  intro before p after hps
  cases before <;> cases hps

theorem firstString_cons :
    FirstString a (p :: ps) s ↔
      p.HasString a s ∨ ((∀ s', ¬ p.HasString a s') ∧ FirstString a ps s) := by
  constructor
  · rintro ⟨before, q, after, hps, hq, hbefore⟩
    cases before with
    | nil =>
      cases hps
      exact .inl hq
    | cons r before =>
      cases hps
      refine .inr ⟨hbefore _ (List.mem_cons_self ..), before, q, after, rfl, hq, ?_⟩
      exact fun q' hq' => hbefore q' (List.mem_cons_of_mem _ hq')
  · rintro (hp | ⟨hp, before, q, after, rfl, hq, hbefore⟩)
    · exact ⟨[], p, ps, rfl, hp, fun _ hq => absurd hq List.not_mem_nil⟩
    · refine ⟨p :: before, q, after, rfl, hq, ?_⟩
      intro q' hq'
      rcases List.mem_cons.mp hq' with rfl | hq'
      · exact hp
      · exact hbefore q' hq'

theorem asked_cons : Asked a (p :: ps) ↔ ¬ p.Wraps ∧ ((∃ s, p.HasString a s) ∨ Asked a ps) := by
  constructor
  · intro h
    refine ⟨?_, ?_⟩
    · intro hwraps
      obtain ⟨q, hq, -⟩ := h [] p ps rfl hwraps
      exact absurd hq List.not_mem_nil
    · by_cases hp : ∃ s, p.HasString a s
      · exact .inl hp
      · refine .inr ?_
        rintro before q after rfl hwraps
        obtain ⟨r, hr, hs⟩ := h (p :: before) q after rfl hwraps
        rcases List.mem_cons.mp hr with rfl | hr
        · exact absurd hs hp
        · exact ⟨r, hr, hs⟩
  · rintro ⟨hp, hs⟩ before q after hps hwraps
    cases before with
    | nil =>
      cases hps
      exact absurd hwraps hp
    | cons r before =>
      cases hps
      rcases hs with hs | hs
      · exact ⟨p, List.mem_cons_self .., hs⟩
      · obtain ⟨r, hr, hs⟩ := hs before q after rfl hwraps
        exact ⟨r, List.mem_cons_of_mem _ hr, hs⟩

/-- **The search returns what the first section has**, unless a section that wraps is asked. -/
theorem findLiteral_eq_ok {cs : List CStringSection} (h : List.Forall₂ StringSection.Filled ps cs)
    {found : Option String} :
    findLiteral a cs = .ok found ↔ Asked a ps ∧ ∀ s, found = some s ↔ FirstString a ps s := by
  induction h with
  | nil =>
    rw [findLiteral, Except.ok.injEq]
    constructor
    · rintro rfl
      exact ⟨asked_nil, fun s => iff_of_false nofun not_firstString_nil⟩
    · rintro ⟨-, hfound⟩
      cases found with
      | none => rfl
      | some s => exact absurd ((hfound s).mp rfl) not_firstString_nil
  | @cons p c ps cs hp _ ih =>
    rw [findLiteral, bind_eq_ok, asked_cons]
    simp only [firstString_cons]
    by_cases hhas : ∃ s, p.HasString a s
    · -- the section answers, and the others are not asked
      obtain ⟨s, hs⟩ := hhas
      have hall : ∀ s', p.HasString a s' ∨ ((∀ s', ¬ p.HasString a s') ∧ FirstString a ps s') ↔
          some s = some s' := by
        intro s'
        constructor
        · rintro (hs' | ⟨hnot, -⟩)
          · rw [hs.unique hs']
          · exact absurd hs (hnot s)
        · intro heq
          cases heq
          exact .inl hs
      simp only [hall]
      constructor
      · rintro ⟨r, hr, hfound⟩
        obtain ⟨hwraps, hreads⟩ := hp.findString_eq_ok.mp hr
        rw [(hreads s).mpr hs] at hfound
        cases hfound
        exact ⟨⟨hwraps, .inl ⟨s, hs⟩⟩, fun _ => Iff.rfl⟩
      · rintro ⟨⟨hwraps, -⟩, hfound⟩
        refine ⟨some s, hp.findString_eq_ok.mpr ⟨hwraps, ?_⟩, ?_⟩
        · intro s'
          refine ⟨fun heq => ?_, fun hs' => congrArg some (hs.unique hs')⟩
          cases heq
          exact hs
        · rw [(hfound s).mpr rfl]
          rfl
    · have hnot : ∀ s, ¬ p.HasString a s := fun s hs => hhas ⟨s, hs⟩
      have hall : ∀ s, p.HasString a s ∨ ((∀ s', ¬ p.HasString a s') ∧ FirstString a ps s) ↔
          FirstString a ps s := by
        intro s
        constructor
        · rintro (hs | ⟨-, hs⟩)
          · exact absurd hs (hnot s)
          · exact hs
        · exact fun hs => .inr ⟨hnot, hs⟩
      simp only [hall, hhas, false_or]
      constructor
      · rintro ⟨r, hr, hfound⟩
        obtain ⟨hwraps, hreads⟩ := hp.findString_eq_ok.mp hr
        cases r with
        | none =>
          obtain ⟨hasked, hfirst⟩ := ih.mp hfound
          exact ⟨⟨hwraps, hasked⟩, hfirst⟩
        | some s => exact absurd ((hreads s).mp rfl) (hnot s)
      · rintro ⟨⟨hwraps, hasked⟩, hfirst⟩
        refine ⟨none, hp.findString_eq_ok.mpr ⟨hwraps, ?_⟩, ih.mpr ⟨hasked, hfirst⟩⟩
        exact fun s => iff_of_false nofun (hnot s)

theorem FirstString.unique {s' : String} (h : FirstString a ps s) (h' : FirstString a ps s') :
    s = s' := by
  induction ps with
  | nil => exact absurd h not_firstString_nil
  | cons p ps ih =>
    rcases firstString_cons.mp h with hs | ⟨hnot, hs⟩
    · rcases firstString_cons.mp h' with hs' | ⟨hnot, -⟩
      · exact hs.unique hs'
      · exact absurd hs (hnot s)
    · rcases firstString_cons.mp h' with hs' | ⟨-, hs'⟩
      · exact absurd hs' (hnot s')
      · exact ih hs hs'

/-- The search returns exactly if no section that wraps is asked. -/
theorem exists_findLiteral {cs : List CStringSection} (h : List.Forall₂ StringSection.Filled ps cs) :
    (∃ found, findLiteral a cs = .ok found) ↔ Asked a ps := by
  constructor
  · rintro ⟨found, hfound⟩
    exact ((findLiteral_eq_ok h).mp hfound).1
  · intro hasked
    by_cases hfirst : ∃ s, FirstString a ps s
    · obtain ⟨s, hs⟩ := hfirst
      refine ⟨some s, (findLiteral_eq_ok h).mpr ⟨hasked, fun s' => ?_⟩⟩
      rw [Option.some_inj]
      exact ⟨fun heq => heq ▸ hs, hs.unique⟩
    · refine ⟨none, (findLiteral_eq_ok h).mpr ⟨hasked, fun s => ?_⟩⟩
      exact iff_of_false nofun fun hs => hfirst ⟨s, hs⟩

end Search

/-! ## The pointers -/

/-- The C-string sections of a file, in the order in which they are asked. -/
def Macho.stringSections (m : Macho) : List StringSection :=
  m.allComponents.filterMap fun c => match c.kind with
    | .cStringSection baseVirtualAddress => some ⟨baseVirtualAddress, c.data⟩
    | _ => none

/-- The pointers fill the data. -/
theorem pointerLoop_length {is64Bit : Bool} {d : Data} {k : Nat} {s u : DataShifter}
    {ps : List (Field UInt64)} (h : (pointerLoop is64Bit).Turns s ps u) (hs : s = cursor d k)
    (hk : k ≤ d.count) : k + ps.length * addressSize is64Bit ≤ d.count := by
  induction h generalizing k with
  | nil s => simpa using hk
  | cons hm hn _ ih =>
    subst hs
    obtain ⟨hle, hr⟩ := nextPointer_eq_ok.mp hn
    cases hr
    have hrest := ih rfl hle
    rw [List.length_cons, Nat.succ_mul]
    omega

theorem initPointers_length {is64Bit : Bool} {d : Data} {ps : List (Field UInt64)}
    (h : initPointers is64Bit d = .ok ps) : ps.length * addressSize is64Bit ≤ d.count := by
  unfold initPointers at h
  rw [bind_eq_ok] at h
  obtain ⟨⟨_, u⟩, hrun, h⟩ := h
  cases h
  have hlength := pointerLoop_length (Loop.run_eq_ok_iff.mp hrun).1 (init_eq d) (Nat.zero_le _)
  rwa [Nat.zero_add] at hlength

/-- **The pointers of a section** are the words of its data. -/
theorem initPointers_eq {is64Bit : Bool} {d : Data} {ps : List (Field UInt64)}
    (h : initPointers is64Bit d = .ok ps) :
    ps = (List.range (d.count / addressSize is64Bit)).map fun i =>
      addressAt is64Bit d (i * addressSize is64Bit) := by
  have hpos : 0 < addressSize is64Bit := by cases is64Bit <;> decide
  refine List.ext_getElem? fun i => ?_
  rw [List.getElem?_map]
  by_cases hi : (i + 1) * addressSize is64Bit ≤ d.count
  · rw [List.getElem?_range ((Nat.le_div_iff_mul_le hpos).mpr hi), initPointers_getElem? h hi]
    rfl
  · have hps : ps.length ≤ i := Nat.le_of_not_lt fun hlt =>
      hi ((Nat.mul_le_mul_right _ hlt).trans (initPointers_length h))
    have hrange : (List.range (d.count / addressSize is64Bit)).length ≤ i := by
      rw [List.length_range]
      exact Nat.le_of_not_lt fun hlt => hi ((Nat.le_div_iff_mul_le hpos).mp hlt)
    rw [List.getElem?_eq_none hps, List.getElem?_eq_none hrange, Option.map_none]

section Section

variable {m : Macho} {machoData : Data} {is64Bit : Bool} {sect : SectionHeader} {n stack : Nat}
  {c : MachoComponent}

/-- The component at position `n` is the given section of literal pointers. -/
structure Macho.LiteralsAt (machoData : Data) (is64Bit : Bool) (sect : SectionHeader) (m : Macho)
    (n : Nat) (c : MachoComponent) : Prop where
  component : m.allComponents[n]? = some c
  kind : c.kind = .literalPointer is64Bit
  fits : sect.offset.value.toNat + sect.size.value.toNat ≤ machoData.count
  data : c.data = machoData.window sect.offset.value.toNat sect.size.value.toNat

theorem literalsAt_sectionID {header : MachoHeader} (h : m.Built machoData header) {k : Nat}
    (hk : m.sectionHeaders[k]? = some sect) (htype : sect.sectionType.value = .S_LITERAL_POINTERS) :
    ∃ c, m.LiteralsAt machoData header.is64Bit sect (m.sectionID k) c := by
  obtain ⟨c, hc, hcreate⟩ := forall₂_getElem? h.sections hk
  obtain ⟨hplace, -, -⟩ := createComponent_eq_ok hcreate
  rcases hplace with ⟨hzero, -⟩ | ⟨-, hfits, hdata⟩
  · rw [htype] at hzero
    cases hzero
  · refine ⟨c, allComponents_sectionID hc, ?_, hfits, hdata⟩
    unfold createComponent at hcreate
    simp only [htype, bind_eq_ok] at hcreate
    obtain ⟨size, -, d, -, hcreate⟩ := hcreate
    obtain ⟨-, rfl⟩ := pointerComponent_eq_ok hcreate
    rfl

/-- The section holds its pointers, and no others. -/
theorem settled_literals (hc : m.LiteralsAt machoData is64Bit sect n c) {v : ComponentState}
    (h : Settled (m.plan stack) m.orderedReads n v) :
    v.pointerValues = (List.range (sect.size.value.toNat / addressSize is64Bit)).map
      (pointerAt machoData is64Bit sect) := by
  cases h with
  | mk st _ hv =>
    have hrun := (plan_prepare_eq_some hc.component).mp hv
    unfold MachoComponent.runInitializing at hrun
    simp only [hc.kind, bind_eq_ok] at hrun
    obtain ⟨ps, hps, hrun⟩ := hrun
    cases hrun
    have hcount : (machoData.window sect.offset.value.toNat sect.size.value.toNat).count =
        sect.size.value.toNat := window_count _ hc.fits
    rw [hc.data] at hps
    rw [initPointers_eq hps, hcount]
    refine List.map_congr_left fun i hi => ?_
    have hle : (i + 1) * addressSize is64Bit ≤ sect.size.value.toNat :=
      (Nat.mul_le_mul_right _ (List.mem_range.mp hi)).trans (Nat.div_mul_le_self _ _)
    rw [Nat.succ_mul] at hle
    rw [addressAt_window machoData hle]
    rfl

/-- Every C-string section is read. -/
theorem mem_orderedReads_literals (hc : m.LiteralsAt machoData is64Bit sect n c) {p : Nat × UInt64}
    (hp : p ∈ m.cStringSections) : p.1 ∈ m.orderedReads n := by
  have hno : c.hasFunctionStarts = false := by
    unfold MachoComponent.hasFunctionStarts
    rw [hc.kind]
  rw [orderedReads_eq hc.component hno, hc.kind]
  exact List.mem_append_right _ (List.mem_map_of_mem hp)

/-- The sections at the positions that are read are the C-string sections of the file. -/
theorem stringSections_eq :
    m.stringSections = m.cStringSections.map fun p =>
      ⟨p.2, (m.allComponents[p.1]?.map MachoComponent.data).getD ⟨0, []⟩⟩ := by
  unfold Macho.stringSections Macho.cStringSections
  rw [List.map_filterMap]
  conv_lhs => rw [← List.zipIdx_map_fst 0 m.allComponents, List.filterMap_map]
  refine List.filterMap_congr fun p hp => ?_
  obtain ⟨c, i⟩ := p
  have hc : m.allComponents[i]? = some c := List.mk_mem_zipIdx_iff_getElem?.mp hp
  cases hkind : c.kind <;> simp [hkind, hc]

theorem settled_cStrings {a : UInt64} (hc : m.allComponents[n]? = some c)
    (hkind : c.kind = .cStringSection a) {v : ComponentState}
    (h : Settled (m.plan stack) m.orderedReads n v) :
    CStrings.runInitializing c.data = .ok v.cStrings := by
  cases h with
  | mk st _ hv =>
    have hrun := (plan_prepare_eq_some hc).mp hv
    unfold MachoComponent.runInitializing at hrun
    simp only [hkind, bind_eq_ok] at hrun
    obtain ⟨strings, hstrings, hrun⟩ := hrun
    cases hrun
    exact hstrings

/-- A component that sees settled C-string sections sees the ones of the file. -/
theorem stringSections_filled {states : Nat → ComponentState}
    (h : ∀ p ∈ m.cStringSections, Settled (m.plan stack) m.orderedReads p.1 (states p.1)) :
    List.Forall₂ StringSection.Filled m.stringSections (m.view states).cStringSections := by
  rw [stringSections_eq]
  simp only [Macho.view, List.forall₂_map_left_iff, List.forall₂_map_right_iff]
  refine List.forall₂_same.mpr ?_
  intro p hp
  obtain ⟨c, hc, hkind⟩ := cStringSections_kind hp
  refine ⟨rfl, ?_, ?_⟩
  · rw [hc]
    rfl
  · rw [hc]
    exact settled_cStrings hc hkind (h p hp)

/-- A pointer is translated exactly if the sections can be asked for it, and shown with its string. -/
theorem literalPointerTranslation_eq_ok {v : MachoView} {ps : List StringSection}
    (h : List.Forall₂ StringSection.Filled ps v.cStringSections) {p : Field UInt64}
    {t : GeneralTranslation} (ht : literalPointerTranslation is64Bit v p = .ok t) :
    Asked p.value ps ∧ t.humanReadable = hex p.value.toNat ∧
      ∀ s, t.extraHumanReadable = some s ↔ FirstString p.value ps s := by
  unfold literalPointerTranslation at ht
  rw [bind_eq_ok] at ht
  obtain ⟨found, hfound, ht⟩ := ht
  cases ht
  obtain ⟨hasked, hfirst⟩ := (findLiteral_eq_ok h).mp hfound
  exact ⟨hasked, rfl, hfirst⟩

theorem exists_literalPointerTranslation {v : MachoView} {ps : List StringSection}
    (h : List.Forall₂ StringSection.Filled ps v.cStringSections) {p : Field UInt64} :
    (∃ t, literalPointerTranslation is64Bit v p = .ok t) ↔ Asked p.value ps := by
  constructor
  · rintro ⟨t, ht⟩
    exact (literalPointerTranslation_eq_ok h ht).1
  · intro hasked
    obtain ⟨found, hfound⟩ := (exists_findLiteral h).mpr hasked
    unfold literalPointerTranslation
    rw [hfound]
    exact ⟨_, rfl⟩

/-- A list is translated exactly if each of its pointers is. -/
theorem translatePointers_returns_iff {translation : Field UInt64 → Nat → Run GeneralTranslation}
    {size : Nat} {pointer : Nat → Field UInt64} :
    (∃ gs, translatePointers translation ((List.range size).map pointer) = .ok gs) ↔
      ∀ i < size, ∃ t, translation (pointer i) i = .ok t := by
  have hget : ∀ i < size, ((List.range size).map pointer)[i]? = some (pointer i) := by
    intro i hi
    rw [List.getElem?_map, List.getElem?_range hi, Option.map_some]
  constructor
  · rintro ⟨gs, hgs⟩ i hi
    obtain ⟨t, -, ht⟩ := translatePointers_getElem? hgs (hget i hi)
    exact ⟨t, ht⟩
  · intro h
    have hpairs : ∀ x ∈ ((List.range size).map pointer).zipIdx, ∃ t, translation x.1 x.2 = .ok t := by
      rintro ⟨p, i⟩ hx
      have hp := List.mk_mem_zipIdx_iff_getElem?.mp hx
      have hi := (List.getElem?_eq_some_iff.mp hp).1
      rw [List.length_map, List.length_range] at hi
      rw [hget i hi, Option.some_inj] at hp
      exact hp ▸ h i hi
    obtain ⟨ts, hts⟩ := exists_mapM_eq_ok.mpr hpairs
    refine ⟨[ts], ?_⟩
    rw [translatePointers, hts]
    rfl

theorem translatePointers_length {translation : Field UInt64 → Nat → Run GeneralTranslation}
    {ps : List (Field UInt64)} {gs : List TranslationGroup}
    (h : translatePointers translation ps = .ok gs) : gs.flatten.length = ps.length := by
  unfold translatePointers at h
  rw [bind_eq_ok] at h
  obtain ⟨ts, hts, h⟩ := h
  cases h
  rw [List.flatten_cons, List.flatten_nil, List.append_nil, ← (mapM_eq_ok.mp hts).length_eq,
    List.length_zipIdx]

end Section

/-- The translation shows pointer `i` of a section with the string it points to. -/
structure ShowsLiteral (machoData : Data) (is64Bit : Bool) (sect : SectionHeader)
    (sections : List StringSection) (i : Nat) (t : GeneralTranslation) : Prop where
  value : t.humanReadable = hex (pointerAt machoData is64Bit sect i).value.toNat
  string : ∀ s, t.extraHumanReadable = some s ↔
    FirstString (pointerAt machoData is64Bit sect i).value sections s

theorem fix_length (current : Nat) (gs : List TranslationGroup) :
    (fixTranslationDataRange current gs).flatten.length = gs.flatten.length := by
  have hmap := congrArg List.length (fix_map (f := fun _ => ()) (fun _ _ => rfl) current gs)
  rwa [List.length_map, List.length_map] at hmap

/-- **Every literal pointer is resolved.** Take a file, one of its sections of literal pointers and any
order of the jobs. From the moment on at which the section is initialized, its translation returns
exactly if no pointer is asked of a section that wraps; and a section that is done has one translation
for each pointer, with the string of the first C-string section that has one at its address. -/
theorem literalPointers_resolved {machoData : Data} {name : String} {header : MachoHeader} {m : Macho}
    (h : Macho.init machoData name header = .ok m) {k : Nat} {sect : SectionHeader}
    (hk : m.sectionHeaders[k]? = some sect) (htype : sect.sectionType.value = .S_LITERAL_POINTERS)
    {stack : Nat} {s : State Nat ComponentState (List TranslationGroup)}
    (hs : (m.plan stack).Reachable s) :
    ((s.cells (m.sectionID k)).prepared = true →
      ((∃ groups, (m.plan stack).translate s.states (m.sectionID k) = some groups) ↔
        ∀ i < sect.size.value.toNat / addressSize header.is64Bit,
          Asked (pointerAt machoData header.is64Bit sect i).value m.stringSections)) ∧
    ((s.cells (m.sectionID k)).isDone = true →
      ∃ groups, (s.cells (m.sectionID k)).groups = some groups ∧
        groups.flatten.length = sect.size.value.toNat / addressSize header.is64Bit ∧
        ∀ i < sect.size.value.toNat / addressSize header.is64Bit, ∃ t, groups.flatten[i]? = some t ∧
          ShowsLiteral machoData header.is64Bit sect m.stringSections i t) := by
  have hregistered := init_registered h
  have hwf := plan_wf hregistered stack
  have hbefore := orderedReads_before hregistered stack
  obtain ⟨c, hc⟩ := literalsAt_sectionID (init_built h) hk htype
  constructor
  · intro hprepared
    have hstart := hs.prepared_starts hwf hprepared
    have hown : Settled (m.plan stack) m.orderedReads (m.sectionID k) (s.states (m.sectionID k)) :=
      (hs.consistent hwf hbefore (m.sectionID k)).state hprepared
    -- the C-string sections were filled in before the section was begun
    have hfilled := @stringSections_filled m stack s.states fun p hp =>
      (hs.consistent hwf hbefore p.1).state (hs.before_prepared hwf hstart
        (hbefore _ p.1 (mem_orderedReads_literals hc hp)))
    have hrun : ∀ gs, (m.plan stack).translate s.states (m.sectionID k) = some gs ↔
        translatePointers (fun p _ => literalPointerTranslation header.is64Bit (m.view s.states) p)
          (s.states (m.sectionID k)).pointerValues = .ok gs := by
      intro gs
      rw [plan_translate_eq_some hc.component, MachoComponent.runTranslating, hc.kind]
    simp only [hrun, settled_literals hc hown, translatePointers_returns_iff,
      exists_literalPointerTranslation hfilled]
  · intro hdone
    obtain ⟨gs, hgroups, st, hown, hreads, htranslate⟩ :=
      (hs.consistent hwf hbefore (m.sectionID k)).fixed (hs.done_fixed hwf hdone).1
    have hfilled := @stringSections_filled m stack st fun p hp =>
      hreads p.1 (mem_orderedReads_literals hc hp)
    have hrun := (plan_translate_eq_some hc.component).mp htranslate
    unfold MachoComponent.runTranslating at hrun
    simp only [hc.kind] at hrun
    rw [settled_literals hc hown] at hrun
    refine ⟨_, hgroups, ?_, ?_⟩
    · rw [Macho.plan, fix_length, translatePointers_length hrun, List.length_map, List.length_range]
    · intro i hi
      have hpointer : ((List.range (sect.size.value.toNat / addressSize header.is64Bit)).map
          (pointerAt machoData header.is64Bit sect))[i]? =
            some (pointerAt machoData header.is64Bit sect i) := by
        rw [List.getElem?_map, List.getElem?_range hi, Option.map_some]
      obtain ⟨u, hu, htranslation⟩ := translatePointers_getElem? hrun hpointer
      obtain ⟨-, hvalue, hstring⟩ := literalPointerTranslation_eq_ok hfilled htranslation
      obtain ⟨r, hr⟩ := fix_getElem? hu _
      exact ⟨_, hr, hvalue, hstring⟩

/-- A section with two literal pointers, to the string `f` and past it. -/
def literalFile : Data :=
  ⟨0, word 0xfeedfacf ++ word 0x0100000c ++ word 0 ++ word 2 ++ word 1 ++ word 232 ++ word 0 ++
      word 0 ++
    (word 0x19 ++ word 232 ++ paddedName 16 "__TEXT" ++ quad 0 ++ quad 0x1000 ++ quad 0 ++
      quad 0 ++ word 3 ++ word 3 ++ word 2 ++ word 0) ++
    (paddedName 16 "__cstring" ++ paddedName 16 "__TEXT" ++ quad 0x100 ++ quad 3 ++ word 264 ++
      word 0 ++ word 0 ++ word 0 ++ word 2 ++ word 0 ++ word 0 ++ word 0) ++
    (paddedName 16 "__objc_selrefs" ++ paddedName 16 "__DATA" ++ quad 0 ++ quad 16 ++ word 267 ++
      word 0 ++ word 0 ++ word 0 ++ word 5 ++ word 0 ++ word 0 ++ word 0) ++
    [0, 0x66, 0] ++ quad 0x101 ++ quad 0x102⟩

/-- Its header. -/
def literalFileHeader : MachoHeader := MachoHeader.layout true (literalFile.window 0 32)

/-- All steps of `literalFile`: the jobs of the C-string section and then that of the pointers. -/
def stringsFirst : List Plan.Choice :=
  List.replicate 4 Plan.Choice.main ++ List.replicate 19 (Plan.Choice.job 0) ++
    List.replicate 4 Plan.Choice.main ++ List.replicate 6 (Plan.Choice.job 0) ++ [Plan.Choice.main]

/-- The file `literalFile`, its state after these steps and its section of pointers. -/
def literalFileRun : Option (Macho × State Nat ComponentState (List TranslationGroup) ×
    SectionHeader) := do
  let m ← (Macho.init literalFile "p" literalFileHeader).toOption
  let s ← (m.plan 0).run (m.plan 0).start stringsFirst
  let sect ← m.sectionHeaders[1]?
  return (m, s, sect)

theorem literalPointers_resolved_literalFile :
    ∃ m s sect groups t, Macho.init literalFile "p" literalFileHeader = .ok m ∧
      (m.plan 0).Reachable s ∧ (s.cells (m.sectionID 1)).groups = some groups ∧
      groups.flatten.length = 2 ∧ groups.flatten[0]? = some t ∧
      ShowsLiteral literalFile true sect m.stringSections 0 t := by
  have hrun : literalFileRun.map (fun (m, s, sect) =>
      ((s.cells (m.sectionID 1)).isDone, sect.sectionType.value, sect.size.value.toNat)) =
      some (true, .S_LITERAL_POINTERS, 16) := by
    decide +kernel
  obtain ⟨⟨m, s, sect⟩, hrun, hfacts⟩ := Option.map_eq_some_iff.mp hrun
  simp only [Prod.mk.injEq] at hfacts
  obtain ⟨hdone, htype, hsize⟩ := hfacts
  unfold literalFileRun at hrun
  simp only [Option.bind_eq_bind, Option.bind_eq_some_iff] at hrun
  obtain ⟨m', hm, s', hs, sect', hsect, heq⟩ := hrun
  cases heq
  have hinit := toOption_eq_some.mp hm
  have hreach := Plan.reachable_of_run _ .refl hs
  obtain ⟨groups, hgroups, hlength, hshows⟩ :=
    (literalPointers_resolved hinit hsect htype hreach).2 hdone
  rw [hsize] at hlength hshows
  obtain ⟨t, ht, hshown⟩ := hshows 0 (by decide)
  exact ⟨m, s, sect, groups, t, hinit, hreach, hgroups, hlength, ht, hshown⟩

end Mocha
