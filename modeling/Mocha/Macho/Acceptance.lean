import Mocha.Components.RelocatedSections
import Mocha.Macho.Resolution
import Mocha.Macho.Sections

/-!
# The files that can be opened

`Macho.init` has no error to throw: a file it does not accept ends the program. Every constructor it
calls may be the reason, and so may the observers that run when all of them have returned, which look
for the tables other components need.

* `functionStarts_returns_iff`, `relocationTable_returns_iff`, `createComponent_returns_iff`,
  `linkedITComponent_returns_iff`: what each constructor asks of the bytes.
* `setMacho_returns_iff`: no registration is made twice, so the observers ask only for the tables.
* **`init_returns_iff`**: the file is accepted exactly if its load commands are, as many as the header
  says, and they are `Buildable` and `Complete`.
-/

namespace Mocha

open Lib Data

/-! ## Function starts -/

/-- A list of LEB128 runs. -/
def AreLebs (runs : List (List UInt8)) : Prop := ∀ bs ∈ runs, IsLeb bs ∧ 7 * bs.length < 2 ^ 32

/-- The sum of the values of a list of runs, as the constructor reads them. -/
def lebSum (runs : List (List UInt8)) : Nat := (runs.map fun bs => lebNat bs % 2 ^ 64).sum

theorem plus_eq_ok {a b c : UInt64} :
    plus a b = .ok c ↔ a.toNat + b.toNat < 2 ^ 64 ∧ c.toNat = a.toNat + b.toNat := by
  unfold plus
  by_cases hlt : a.toNat + b.toNat < 2 ^ 64
  · have hsum : (a + b).toNat = a.toNat + b.toNat := by
      rw [UInt64.toNat_add, Nat.mod_eq_of_lt hlt]
    rw [if_pos hlt, Except.ok.injEq, ← UInt64.toNat_inj, hsum]
    exact ⟨fun h => ⟨hlt, h.symm⟩, fun h => h.2.symm⟩
  · rw [if_neg hlt]
    exact iff_of_false nofun fun h => hlt h.1

/-- One turn reads a run and adds its value. -/
theorem nextFunctionStart_eq_ok {d : Data} {k : Nat} {a : UInt64} {t : Nat × UInt64} :
    (∃ x, nextFunctionStart d (k, a) = .ok (x, t)) ↔ ∃ bs, d.Holds k bs ∧ IsLeb bs ∧
      7 * bs.length < 2 ^ 32 ∧ a.toNat + lebNat bs % 2 ^ 64 < 2 ^ 64 ∧ t.1 = k + bs.length ∧
      t.2.toNat = a.toNat + lebNat bs % 2 ^ 64 := by
  unfold nextFunctionStart
  simp only [bind_eq_ok, readLEB_eq_ok, plus_eq_ok]
  constructor
  · rintro ⟨x, leb, ⟨bs, hholds, hleb, hlength, rfl⟩, address, ⟨hlt, haddress⟩, h⟩
    cases h
    exact ⟨bs, hholds, hleb, hlength, hlt, rfl, haddress⟩
  · rintro ⟨bs, hholds, hleb, hlength, hlt, hindex, haddress⟩
    obtain ⟨index, address⟩ := t
    obtain rfl : index = k + bs.length := hindex
    exact ⟨_, _, ⟨bs, hholds, hleb, hlength, rfl⟩, address, ⟨hlt, haddress⟩, rfl⟩

/-- The turns read runs, one after the other. -/
theorem functionStarts_turns_runs {d : Data} {s u : Nat × UInt64} {starts : List (Field FunctionStart)}
    (h : (functionStartsLoop d).Turns s starts u) (hk : s.1 ≤ d.count) :
    ∃ runs, d.Holds s.1 runs.flatten ∧ AreLebs runs ∧ s.2.toNat + lebSum runs < 2 ^ 64 ∧
      u.1 = s.1 + runs.flatten.length := by
  induction h with
  | nil s =>
    refine ⟨[], holds_nil.mpr hk, ?_, s.2.toNat_lt, rfl⟩
    intro bs hbs
    exact absurd hbs List.not_mem_nil
  | @cons s t u x starts hm hn _ ih =>
    obtain ⟨bs, hholds, hleb, hlength, hlt, hindex, haddress⟩ :=
      nextFunctionStart_eq_ok.mp ⟨x, hn⟩
    obtain ⟨runs, hruns, hlebs, hsum, hend⟩ := ih (hindex ▸ hholds.1)
    refine ⟨bs :: runs, ?_, ?_, ?_, ?_⟩
    · rw [List.flatten_cons, holds_append, ← hindex]
      exact ⟨hholds, hruns⟩
    · intro bs' hbs'
      rcases List.mem_cons.mp hbs' with rfl | hbs'
      · exact ⟨hleb, hlength⟩
      · exact hlebs bs' hbs'
    · simp only [lebSum, List.map_cons, List.sum_cons] at hsum ⊢
      omega
    · rw [hend, hindex, List.flatten_cons, List.length_append, Nat.add_assoc]

/-- Runs one after the other are read by as many turns. -/
theorem functionStarts_runs_turns {d : Data} {runs : List (List UInt8)} (hlebs : AreLebs runs) :
    ∀ {k : Nat} {a : UInt64}, d.Holds k runs.flatten → a.toNat + lebSum runs < 2 ^ 64 →
      ∃ starts u, (functionStartsLoop d).Turns (k, a) starts u ∧ u.1 = k + runs.flatten.length := by
  induction runs with
  | nil => exact fun _ _ => ⟨[], _, .nil _, rfl⟩
  | cons bs runs ih =>
    intro k a hholds hsum
    obtain ⟨hleb, hlength⟩ := hlebs bs List.mem_cons_self
    rw [List.flatten_cons, holds_append] at hholds
    simp only [lebSum, List.map_cons, List.sum_cons] at hsum
    have hlt : a.toNat + lebNat bs % 2 ^ 64 < 2 ^ 64 := by omega
    have hvalue : (UInt64.ofNat (a.toNat + lebNat bs % 2 ^ 64)).toNat =
        a.toNat + lebNat bs % 2 ^ 64 := UInt64.toNat_ofNat_of_lt hlt
    obtain ⟨x, hx⟩ := (nextFunctionStart_eq_ok (t := (k + bs.length,
      UInt64.ofNat (a.toNat + lebNat bs % 2 ^ 64)))).mpr
        ⟨bs, hholds.1, hleb, hlength, hlt, rfl, hvalue⟩
    obtain ⟨starts, u, hturns, hu⟩ := ih (fun bs' hbs' => hlebs bs' (List.mem_cons_of_mem _ hbs'))
      hholds.2 (a := UInt64.ofNat (a.toNat + lebNat bs % 2 ^ 64)) (by
        rw [hvalue]
        unfold lebSum
        omega)
    have hmore : k < d.count := by
      have hinside := hholds.1.1
      have hpos := hleb.length_pos
      omega
    refine ⟨x :: starts, u, .cons (decide_eq_true hmore) hx hturns, ?_⟩
    rw [hu, List.flatten_cons, List.length_append, Nat.add_assoc]

/-- **Function starts**: the data is a list of runs, and no address leaves the 64 bits. -/
theorem functionStarts_returns_iff {d : Data} :
    (∃ starts, functionStarts d = .ok starts) ↔
      ∃ runs, d.bytes = runs.flatten ∧ AreLebs runs ∧ lebSum runs < 2 ^ 64 := by
  constructor
  · rintro ⟨starts, h⟩
    unfold functionStarts at h
    rw [bind_eq_ok] at h
    obtain ⟨⟨_, u⟩, hrun, h⟩ := h
    cases h
    obtain ⟨hturns, hend⟩ := Loop.run_eq_ok_iff.mp hrun
    obtain ⟨runs, hholds, hlebs, hsum, hu⟩ := functionStarts_turns_runs hturns (Nat.zero_le _)
    have hcount : runs.flatten.length = d.count := by
      have hlt : ¬ u.1 < d.count := of_decide_eq_false hend
      have hle := hholds.1
      simp only at hu hle
      omega
    refine ⟨runs, ?_, hlebs, by simpa using hsum⟩
    have hwindow := hholds.2
    rw [hcount] at hwindow
    simpa [Data.window, Data.count] using hwindow
  · rintro ⟨runs, hbytes, hlebs, hsum⟩
    obtain ⟨starts, u, hturns, hu⟩ := functionStarts_runs_turns hlebs (k := 0) (a := 0)
      (holds_of_eq hbytes) (by simpa using hsum)
    have hend : (functionStartsLoop d).more u = false := by
      refine decide_eq_false ?_
      rw [hu, ← hbytes, Nat.zero_add]
      exact Nat.lt_irrefl _
    refine ⟨starts, ?_⟩
    unfold functionStarts
    rw [Loop.run_eq_ok_iff.mpr ⟨hturns, hend⟩]
    rfl

/-! ## Relocation tables -/

/-- The entries of the sections that have some follow each other and lie in the file. -/
def LCSegment.RelocationsFit (machoData : Data) (c : LCSegment) : Prop :=
  ∀ start, relocationStart c.relocated = some start → RelocationsFollow start c.relocated ∧
    start + entrySize * relocationCount c.relocated ≤ machoData.count

/-- The loop goes through entries that follow each other. -/
theorem scanRelocations_returns {hs : List SectionHeader} : ∀ {s : RelocationScan},
    (∀ start, s.startOffsetInMacho.or (relocationStart (hs.filter SectionHeader.hasRelocations)) =
      some start → RelocationsFollow (start + 8 * s.numberOfAllEntries)
        (hs.filter SectionHeader.hasRelocations)) →
    (s.startOffsetInMacho = none → s.numberOfAllEntries = 0) →
    ∃ t, hs.foldlM RelocationScan.step s = .ok t := by
  induction hs with
  | nil => exact fun _ _ => ⟨_, rfl⟩
  | cons h hs ih =>
    intro s hfollow hfresh
    rw [List.foldlM_cons]
    cases hr : h.hasRelocations with
    | false =>
      rw [List.filter_cons_of_neg (by rw [hr]; exact Bool.false_ne_true)] at hfollow
      have hstep : s.step h = .ok s := by
        unfold RelocationScan.step
        rw [hr]
        rfl
      rw [hstep, ok_bind]
      exact ih hfollow hfresh
    | true =>
      rw [List.filter_cons_of_pos hr] at hfollow
      obtain ⟨t, ht⟩ : ∃ t, s.step h = .ok t := by
        unfold RelocationScan.step
        simp only [hr, Bool.not_true, Bool.false_eq_true, if_false]
        cases hstart : s.startOffsetInMacho with
        | none => exact ⟨_, rfl⟩
        | some start =>
          obtain ⟨hnext, -⟩ := hfollow start (by rw [hstart]; rfl)
          have hguard : (start + s.numberOfAllEntries * entrySize ==
              h.fileOffsetOfRelocationEntries.value.toNat) = true := by
            rw [beq_iff_eq, hnext, Nat.mul_comm]
            rfl
          simp only [hguard]
          exact ⟨_, rfl⟩
      rw [ht, ok_bind]
      rcases relocationScan_step_eq_ok ht with ⟨hno, -⟩ | ⟨-, -, hstart, hcount, -⟩
      · rw [hr] at hno
        cases hno
      · refine ih ?_ ?_
        · intro start hsome
          rw [hstart, Option.some_or, Option.some_inj] at hsome
          have hfirst : s.startOffsetInMacho.or (relocationStart
              (h :: hs.filter SectionHeader.hasRelocations)) = some start := by
            cases hnone : s.startOffsetInMacho with
            | none =>
              rw [hnone] at hsome
              simpa [relocationStart] using hsome
            | some first =>
              rw [hnone] at hsome
              simpa using hsome
          have hrest := (hfollow start hfirst).2
          rwa [Nat.add_assoc, ← Nat.mul_add, ← hcount] at hrest
        · intro hnone
          rw [hstart] at hnone
          cases hnone

/-- Where there is a first entry, there are entries. -/
theorem relocationCount_pos {c : LCSegment} {start : Nat}
    (h : relocationStart c.relocated = some start) : 0 < relocationCount c.relocated := by
  cases hr : c.relocated with
  | nil =>
    rw [hr] at h
    cases h
  | cons first rest =>
    have hmem : first ∈ c.relocated := hr ▸ List.mem_cons_self
    have hsome := (List.mem_filter.mp hmem).2
    simp only [SectionHeader.hasRelocations, Bool.and_eq_true, bne_iff_ne] at hsome
    simp only [relocationCount, List.map_cons, List.sum_cons, SectionHeader.relocationInfo]
    omega

/-- **Relocation tables**: the entries follow each other and lie in the file. -/
theorem relocationTable_returns_iff {machoData : Data} {c : LCSegment} :
    (∃ r, c.relocationComponent machoData = .ok r) ↔ c.RelocationsFit machoData := by
  have hcomponent : (∃ r, c.relocationComponent machoData = .ok r) ↔
      ∃ r, c.relocationTable machoData = .ok r := by
    unfold LCSegment.relocationComponent
    simp only [bind_eq_ok]
    constructor
    · rintro ⟨r, t, ht, -⟩
      exact ⟨t, ht⟩
    · rintro ⟨t, ht⟩
      exact ⟨_, t, ht, rfl⟩
  rw [hcomponent]
  constructor
  · rintro ⟨r, h⟩ start hstart
    refine ⟨?_, ?_⟩
    · unfold LCSegment.relocationTable at h
      rw [bind_eq_ok] at h
      obtain ⟨scan, hscan, -⟩ := h
      have hfollow := scanRelocations_follow hscan fun _ => rfl
      rw [(scanRelocations_eq_ok hscan).1] at hfollow
      exact hfollow start hstart
    · rcases relocationTable_eq_ok h with ⟨-, hnone⟩ | ⟨start', hstart', hfit, -⟩
      · rw [hnone] at hstart
        cases hstart
      · rw [hstart, Option.some_inj] at hstart'
        rwa [hstart']
  · intro h
    obtain ⟨scan, hscan⟩ := @scanRelocations_returns c.sectionHeaders ⟨none, 0, []⟩
      (fun start hstart => (h start hstart).1) fun _ => rfl
    obtain ⟨hstart, hcount, hinfos⟩ := scanRelocations_eq_ok hscan
    change scan.startOffsetInMacho = relocationStart c.relocated at hstart
    rw [Nat.zero_add] at hcount
    change scan.numberOfAllEntries = relocationCount c.relocated at hcount
    unfold LCSegment.relocationTable
    rw [hscan, ok_bind, hstart]
    cases hfirst : relocationStart c.relocated with
    | none => exact ⟨_, rfl⟩
    | some start =>
      have hpos : 0 < entrySize * scan.numberOfAllEntries := by
        rw [hcount]
        exact Nat.mul_pos (by decide) (relocationCount_pos hfirst)
      have hdata := subSequence_ok hpos (by rw [hcount]; exact (h start hfirst).2)
      simp only [hdata, ok_bind]
      split
      · exact ⟨_, rfl⟩
      · exact ⟨_, rfl⟩

/-! ## Sections -/

/-- The CPU types capstone has an architecture for. -/
def CPUType.hasArch : CPUType → Bool
  | .x86 | .x86_64 | .arm | .arm64 => true
  | .arm64_32 | .unknown _ => false

/-- The section is recognized as code: by its attributes, when its type says nothing. -/
def SectionHeader.isCode (h : SectionHeader) : Bool :=
  !(h.sectionType.value.isZeroFill || h.sectionType.value == .S_CSTRING_LITERALS ||
    h.sectionType.value.isPointers) &&
    h.sectionAttributes.value.hasAttribute .S_ATTR_PURE_INSTRUCTIONS

/-- What `createComponent` asks of a section. -/
@[mk_iff] structure SectionHeader.Loads (machoData : Data) (header : MachoHeader) (h : SectionHeader) : Prop where
  size : h.size.value.toNat < 2 ^ 63
  inFile : h.sectionType.value.isZeroFill = false →
    h.offset.value.toNat + h.size.value.toNat ≤ machoData.count
  bytes : h.sectionType.value.isZeroFill = false → h.isNamed = false → 0 < h.size.value.toNat
  whole : h.sectionType.value.isPointers = true →
    h.size.value.toNat % DataShifter.addressSize header.is64Bit = 0
  code : h.isCode = true → header.cpuType.value.hasArch = true

theorem capStoneArchType_returns_iff {cpu : CPUType} :
    (∃ arch, capStoneArchType cpu = .ok arch) ↔ cpu.hasArch = true := by
  cases cpu with
  | x86 | x86_64 | arm | arm64 => exact iff_of_true ⟨_, rfl⟩ rfl
  | arm64_32 | unknown _ => exact iff_of_false nofun nofun

theorem subSequence_bind_returns {α : Type} {d : Data} {k n : Nat} {f : Data → Run α} :
    (∃ a, (d.subSequence k n >>= f) = .ok a) ↔
      0 < n ∧ k + n ≤ d.count ∧ ∃ a, f (d.window k n) = .ok a := by
  simp only [bind_eq_ok, subSequence_eq_ok]
  constructor
  · rintro ⟨a, e, ⟨hn, hfit, rfl⟩, ha⟩
    exact ⟨hn, hfit, a, ha⟩
  · rintro ⟨hn, hfit, a, ha⟩
    exact ⟨a, _, ⟨hn, hfit, rfl⟩, ha⟩

theorem pointerComponent_returns_iff {d : Data} {is64Bit : Bool} {title : String}
    {kind : ComponentKind} : (∃ c, pointerComponent d is64Bit title kind = .ok c) ↔
      d.count % DataShifter.addressSize is64Bit = 0 := by
  constructor
  · rintro ⟨c, hc⟩
    exact (pointerComponent_eq_ok hc).1
  · exact fun hwhole => ⟨_, pointerComponent_ok hwhole⟩

theorem instructionComponent_returns_iff {d : Data} {title : String} {cpu : CPUType} {a : UInt64} :
    (∃ c, instructionComponent d title cpu a = .ok c) ↔ cpu.hasArch = true := by
  rw [← capStoneArchType_returns_iff]
  unfold instructionComponent
  simp only [bind_eq_ok]
  constructor
  · rintro ⟨c, arch, harch, -⟩
    exact ⟨arch, harch⟩
  · rintro ⟨arch, harch⟩
    exact ⟨_, arch, harch, rfl⟩

theorem intOf_bind_returns {α : Type} {n : UInt64} {f : Nat → Run α} :
    (∃ a, (intOf n >>= f) = .ok a) ↔ n.toNat < 2 ^ 63 ∧ ∃ a, f n.toNat = .ok a := by
  by_cases hn : n.toNat < 2 ^ 63
  · rw [intOf_ok hn, ok_bind]
    exact (and_iff_right hn).symm
  · unfold intOf
    rw [if_neg hn]
    exact iff_of_false nofun fun h => hn h.1

/-- **Sections**: `createComponent` returns exactly if the section `Loads`. -/
theorem createComponent_returns_iff {machoData : Data} {header : MachoHeader} {h : SectionHeader} :
    (∃ c, createComponent machoData header h = .ok c) ↔ h.Loads machoData header := by
  unfold createComponent
  rw [intOf_bind_returns, SectionHeader.loads_iff]
  refine and_congr_right fun _ => ?_
  unfold SectionHeader.isNamed SectionHeader.isCode
  cases htype : h.sectionType.value with
  | S_ZEROFILL | S_THREAD_LOCAL_ZEROFILL | S_GB_ZEROFILL =>
    exact iff_of_true ⟨_, rfl⟩ ⟨fun h => absurd h.symm Bool.false_ne_true,
      fun h _ => absurd h.symm Bool.false_ne_true, (absurd · Bool.false_ne_true),
      (absurd · Bool.false_ne_true)⟩
  | S_CSTRING_LITERALS =>
    simp [subSequence_bind_returns, SectionType.isZeroFill, SectionType.isPointers,
      SectionType.isSymbolPointers, and_comm]
  | S_LITERAL_POINTERS
  | S_LAZY_SYMBOL_POINTERS | S_NON_LAZY_SYMBOL_POINTERS | S_LAZY_DYLIB_SYMBOL_POINTERS =>
    simp only [subSequence_bind_returns, pointerComponent_returns_iff]
    constructor
    · rintro ⟨hpos, hfit, hwhole⟩
      rw [window_count _ hfit] at hwhole
      exact ⟨fun _ => hfit, fun _ _ => hpos, fun _ => hwhole,
        (absurd · Bool.false_ne_true)⟩
    · rintro ⟨hfit, hpos, hwhole, -⟩
      have hfit := hfit rfl
      rw [window_count _ hfit]
      exact ⟨hpos rfl rfl, hfit, hwhole rfl⟩
  | _ =>
    by_cases hpure : h.sectionAttributes.value.hasAttribute .S_ATTR_PURE_INSTRUCTIONS = true
    · simp only [hpure, if_true, subSequence_bind_returns, instructionComponent_returns_iff]
      constructor
      · rintro ⟨hpos, hfit, harch⟩
        exact ⟨fun _ => hfit, fun _ _ => hpos, (absurd · Bool.false_ne_true), fun _ => harch⟩
      · rintro ⟨hfit, hpos, -, harch⟩
        exact ⟨hpos rfl rfl, hfit rfl, harch rfl⟩
    · simp only [Bool.not_eq_true] at hpure
      simp only [hpure, Bool.false_eq_true, if_false, bind_eq_ok, subSequenceAllowing_eq_ok]
      constructor
      · rintro ⟨c, e, ⟨-, hfit, rfl⟩, -⟩
        exact ⟨fun _ => hfit, fun _ h => absurd h.symm Bool.false_ne_true,
          (absurd · Bool.false_ne_true), (absurd · Bool.false_ne_true)⟩
      · rintro ⟨hfit, -⟩
        exact ⟨_, _, ⟨.inl trivial, hfit rfl, rfl⟩, rfl⟩

/-! ## Link-edit data and tables -/

/-- The data is a list of function starts. -/
def FunctionStartsLoad (d : Data) : Prop :=
  ∃ runs, d.bytes = runs.flatten ∧ AreLebs runs ∧ lebSum runs < 2 ^ 64

/-- What `linkedITComponent` asks of a command of the given type. -/
@[mk_iff] structure LCLinkedITData.Loads (machoData : Data) (text : Option LCSegment)
    (type : LoadCommandType) (c : LCLinkedITData) : Prop where
  inFile : c.place.1 + c.place.2 ≤ machoData.count
  text : type = .functionStarts → text.isSome = true
  starts : type = .functionStarts → FunctionStartsLoad (machoData.window c.place.1 c.place.2)

theorem functionStartsComponent_returns_iff {d : Data} {title : String} {a : UInt64} :
    (∃ c, functionStartsComponent d title a = .ok c) ↔ FunctionStartsLoad d := by
  unfold FunctionStartsLoad
  rw [← functionStarts_returns_iff]
  constructor
  · rintro ⟨c, hc⟩
    obtain ⟨starts, hstarts, -⟩ := functionStartsComponent_eq_ok hc
    exact ⟨starts, hstarts⟩
  · rintro ⟨starts, hstarts⟩
    unfold functionStartsComponent
    rw [hstarts]
    exact ⟨_, rfl⟩

/-- **Link-edit data.** -/
theorem linkedITComponent_returns_iff {machoData : Data} (is64Bit : Bool) (title : String)
    {c : LCLinkedITData} {type : LoadCommandType} {text : Option LCSegment} :
    (∃ x, c.linkedITComponent type title machoData is64Bit text = .ok x) ↔
      c.Loads machoData text type := by
  have hcut : (∃ x, c.linkedITComponent type title machoData is64Bit text = .ok x) →
      c.place.1 + c.place.2 ≤ machoData.count := by
    rintro ⟨x, hx⟩
    exact (linkedITComponent_eq_ok hx).1
  rw [LCLinkedITData.loads_iff]
  by_cases hfit : c.place.1 + c.place.2 ≤ machoData.count
  · have hdata : machoData.subSequenceAllowing true c.containedDataFileOffset.value.toNat
        c.containedDataSize.value.toNat = .ok (machoData.window c.place.1 c.place.2) :=
      subSequenceAllowing_eq_ok.mpr ⟨.inl rfl, hfit, rfl⟩
    unfold LCLinkedITData.linkedITComponent
    rw [hdata, ok_bind]
    by_cases htype : type = .functionStarts
    · subst htype
      simp only [guardLet_bind, LCLinkedITData.dataName, ok_bind]
      constructor
      · rintro ⟨x, segment, hsegment, hx⟩
        exact ⟨hfit, fun _ => Option.isSome_iff_exists.mpr ⟨segment, hsegment⟩,
          fun _ => functionStartsComponent_returns_iff.mp ⟨x, hx⟩⟩
      · rintro ⟨-, htext, hstarts⟩
        obtain ⟨segment, hsegment⟩ := Option.isSome_iff_exists.mp (htext trivial)
        obtain ⟨x, hx⟩ := functionStartsComponent_returns_iff.mpr (hstarts trivial)
        exact ⟨x, segment, hsegment, hx⟩
    · refine iff_of_true ?_ ⟨hfit, fun h => absurd h htype, fun h => absurd h htype⟩
      cases type <;> first | exact ⟨_, rfl⟩ | exact absurd rfl htype
  · exact iff_of_false (fun h => hfit (hcut h)) fun h => hfit h.1

/-- A part of the file, with at least one byte. -/
def InFile (machoData : Data) (p : Nat × Nat) : Prop := 0 < p.2 ∧ p.1 + p.2 ≤ machoData.count

theorem symbolTable_returns_iff {machoData : Data} {is64Bit : Bool} {c : LCSymbolTable} :
    (∃ x, c.symbolTable machoData is64Bit = .ok x) ↔ InFile machoData (c.symbolPlace is64Bit) := by
  unfold LCSymbolTable.symbolTable
  rw [subSequence_bind_returns]
  exact ⟨fun h => ⟨h.1, h.2.1⟩, fun h => ⟨h.1, h.2, _, rfl⟩⟩

theorem stringTable_returns_iff {machoData : Data} {c : LCSymbolTable} :
    (∃ x, c.stringTable machoData = .ok x) ↔ InFile machoData c.stringPlace := by
  unfold LCSymbolTable.stringTable
  rw [subSequence_bind_returns]
  exact ⟨fun h => ⟨h.1, h.2.1⟩, fun h => ⟨h.1, h.2, _, rfl⟩⟩

/-- What `indirectSymbolTable` asks of a command. -/
def LCDynamicSymbolTable.Loads (machoData : Data) (c : LCDynamicSymbolTable) : Prop :=
  4 * c.nindirectsyms.value.toNat < 2 ^ 32 ∧ ∀ p ∈ c.indirectPlace, InFile machoData p

theorem indirectSymbolTable_returns_iff {machoData : Data} (is64Bit : Bool)
    {c : LCDynamicSymbolTable} :
    (∃ x, c.indirectSymbolTable machoData is64Bit = .ok x) ↔ c.Loads machoData := by
  unfold LCDynamicSymbolTable.indirectSymbolTable LCDynamicSymbolTable.Loads
    LCDynamicSymbolTable.indirectPlace
  by_cases hover : 2 ^ 32 ≤ c.nindirectsyms.value.toNat * 4
  · refine iff_of_false ?_ fun h => by omega
    rintro ⟨x, hx⟩
    simp only [hover, if_true] at hx
    cases hx
  · have hsize : 4 * c.nindirectsyms.value.toNat < 2 ^ 32 := by omega
    simp only [hover, if_false, hsize, true_and, pure_eq_ok]
    by_cases hzero : c.nindirectsyms.value.toNat = 0
    · simp only [hzero, Nat.zero_mul, if_true]
      exact iff_of_true ⟨_, rfl⟩ nofun
    · have hmul : ¬ c.nindirectsyms.value.toNat * 4 = 0 := by omega
      simp only [hmul, hzero, if_false, Option.mem_some_iff, forall_eq', subSequence_bind_returns]
      rw [Nat.mul_comm]
      exact ⟨fun h => ⟨h.1, h.2.1⟩, fun h => ⟨h.1, h.2, _, rfl⟩⟩

theorem dyldInfoComponents_returns_iff {machoData : Data} (is64Bit : Bool) {c : LCDyldInfo} :
    (∃ x, c.dyldInfoComponents machoData is64Bit = .ok x) ↔
      ∀ p ∈ c.places, p.1 + p.2 ≤ machoData.count := by
  have hblock : ∀ start size title kind,
      (∃ x, dyldInfoComponent machoData start size title kind = .ok x) ↔
        (present (start, size) = true → start + size ≤ machoData.count) := by
    intro start size title kind
    unfold dyldInfoComponent
    have hiff : present (start, size) = true ↔ start ≠ 0 ∧ size ≠ 0 := by simp [present]
    rw [hiff]
    by_cases hp : start ≠ 0 ∧ size ≠ 0
    · rw [if_pos hp, subSequence_bind_returns]
      exact ⟨fun h _ => h.2.1, fun h => ⟨Nat.pos_of_ne_zero hp.2, h hp, _, rfl⟩⟩
    · rw [if_neg hp]
      exact iff_of_true ⟨_, rfl⟩ fun h => absurd h hp
  have hreduce : (∃ x, c.dyldInfoComponents machoData is64Bit = .ok x) ↔
      ∃ xs, (c.blocks is64Bit).mapM (fun b => dyldInfoComponent machoData b.1 b.2.1 b.2.2.1 b.2.2.2) =
        .ok xs := by
    unfold LCDyldInfo.dyldInfoComponents
    simp only [bind_eq_ok]
    constructor
    · rintro ⟨x, xs, hxs, -⟩
      exact ⟨xs, hxs⟩
    · rintro ⟨xs, hxs⟩
      exact ⟨_, xs, hxs, rfl⟩
  have hpairs : c.places = ((c.blocks is64Bit).map fun b => (b.1, b.2.1)).filter present := rfl
  rw [hreduce, exists_mapM_eq_ok, hpairs]
  simp only [hblock, List.mem_filter, List.mem_map, and_imp, forall_exists_index,
    forall_apply_eq_imp_iff₂]

/-! ## The observers -/

section Observers

variable {m : Macho}

/-- A child registers with parents it is not registered with. -/
theorem addChildren_returns {child : Nat} {parents : List Nat} (hnodup : parents.Nodup) :
    ∀ {edges : List (Nat × Nat)}, (∀ p ∈ parents, (p, child) ∉ edges) →
      ∃ es, parents.foldlM (Macho.addChildComponent child) edges = .ok es := by
  induction parents with
  | nil => exact fun _ => ⟨_, rfl⟩
  | cons p parents ih =>
    intro edges hnew
    rw [List.nodup_cons] at hnodup
    rw [List.foldlM_cons, addChildComponent_eq_ok.mpr ⟨hnew p List.mem_cons_self, rfl⟩, ok_bind]
    refine ih hnodup.2 ?_
    intro q hq hmem
    rw [List.mem_append, List.mem_singleton] at hmem
    rcases hmem with hmem | heq
    · exact hnew q (List.mem_cons_of_mem _ hq) hmem
    · cases heq
      exact hnodup.1 hq

theorem cStringSections_nodup : (m.cStringSections.map Prod.fst).Nodup := by
  have hpositions : (m.allComponents.zipIdx.map Prod.snd).Nodup := by
    rw [List.zipIdx_map_snd]
    exact List.nodup_range'
  rw [List.Nodup, List.pairwise_map] at hpositions ⊢
  unfold Macho.cStringSections
  rw [List.pairwise_filterMap]
  refine hpositions.imp ?_
  intro x y hne a ha b hb
  split at ha
  · split at hb
    · cases ha
      cases hb
      exact hne
    · cases hb
  · cases ha

theorem registersWith_nodup {kind : ComponentKind} {parents : List Nat}
    (h : m.registersWith kind = .ok parents) : parents.Nodup := by
  cases kind with
  | symbolTable | functionStarts | indirectSymbolTable | symbolPointer =>
    obtain ⟨p, -, rfl⟩ := registersOne_eq_ok.mp h
    exact List.nodup_singleton p
  | literalPointer =>
    cases h
    exact cStringSections_nodup
  | _ =>
    cases h
    exact List.nodup_nil

/-- The observers of components that are not registered with anything. -/
theorem didSetAll_returns {components : List (MachoComponent × Nat)}
    (hnodup : (components.map Prod.snd).Nodup)
    (hreturns : ∀ x ∈ components, ∃ parents, m.registersWith x.1.kind = .ok parents) :
    ∀ {edges : List (Nat × Nat)}, (∀ e ∈ edges, e.2 ∉ components.map Prod.snd) →
      ∃ es, components.foldlM m.didSetMacho edges = .ok es := by
  induction components with
  | nil => exact fun _ => ⟨_, rfl⟩
  | cons x components ih =>
    intro edges hnew
    rw [List.map_cons, List.nodup_cons] at hnodup
    obtain ⟨parents, hparents⟩ := hreturns x List.mem_cons_self
    obtain ⟨es, hes⟩ := @addChildren_returns x.2 parents (registersWith_nodup hparents)
      edges fun p _ hmem => hnew _ hmem List.mem_cons_self
    have hset : m.didSetMacho edges x = .ok es := by
      unfold Macho.didSetMacho
      rw [hparents]
      exact hes
    rw [List.foldlM_cons, hset, ok_bind]
    refine ih hnodup.2 (fun y hy => hreturns y (List.mem_cons_of_mem _ hy)) ?_
    intro e he hmem
    rw [(addChildren_eq_ok hes).1, List.mem_append, List.mem_map] at he
    rcases he with he | ⟨p, -, rfl⟩
    · exact hnew e he (List.mem_cons_of_mem _ hmem)
    · exact hnodup.1 hmem

/-- **The observers** return exactly if each of them finds its parents. -/
theorem setMacho_returns_iff :
    (∃ edges, m.setMacho = .ok edges) ↔
      ∀ c ∈ m.allComponents, ∃ parents, m.registersWith c.kind = .ok parents := by
  constructor
  · rintro ⟨edges, h⟩ c hc
    have hnone : m.Registered [] [] := ⟨List.nodup_nil, by simp, by simp⟩
    obtain ⟨i, hi⟩ := List.mem_iff_getElem?.mp hc
    exact (hnone.didSetAll h).returns c i (List.mk_mem_zipIdx_iff_getElem?.mpr hi)
  · intro h
    refine didSetAll_returns ?_ ?_ nofun
    · rw [List.zipIdx_map_snd]
      exact List.nodup_range'
    · intro x hx
      exact h x.1 (List.fst_mem_of_mem_zipIdx hx)

end Observers

/-! ## The file -/

/-- Where `Macho.build` gets the parts of a file from. -/
theorem build_built {machoData : Data} {name : String} {header : MachoHeader} {m : Macho}
    (h : Macho.build machoData name header = .ok m) : m.Built machoData header := by
  unfold Macho.build at h
  simp only [bind_eq_ok, guardElse_eq_ok] at h
  obtain ⟨commandData, hdata, commands, hcommands, _, _, relocations, hrelocations, symbols, hsymbols,
    strings, hstrings, indirects, hindirects, sections, hsections, linked, hlinked, dyld, hdyld, h⟩ := h
  cases h
  exact {
    machoHeader := rfl
    commands := ⟨commandData, hdata, hcommands⟩
    sections := mapM_eq_ok.mp hsections
    relocations := ⟨relocations, mapM_eq_ok.mp hrelocations, rfl⟩
    linkedITs := mapM_eq_ok.mp hlinked
    dyldInfos := ⟨dyld, mapM_eq_ok.mp hdyld, rfl⟩
    symbols := option_mapM_eq_ok hsymbols
    strings := option_mapM_eq_ok hstrings
    indirects := ⟨indirects, option_mapM_eq_ok hindirects, rfl⟩ }

/-- What the constructors ask of the load commands of a file. -/
structure Buildable (machoData : Data) (header : MachoHeader) (commands : List LoadCommand) :
    Prop where
  sections : ∀ s ∈ (segmentCommands commands).flatMap LCSegment.sectionHeaders, s.Loads machoData header
  relocations : ∀ c ∈ segmentCommands commands, c.RelocationsFit machoData
  linkedITs : ∀ c ∈ linkedITDataLoadCommands commands,
    c.2.2.Loads machoData (textSegmentLoadCommand commands) c.1
  dyldInfos : ∀ c ∈ dyldInfoLoadCommands commands, ∀ p ∈ c.places, p.1 + p.2 ≤ machoData.count
  symbols : ∀ c ∈ symbolTableLoadCommand commands, InFile machoData (c.symbolPlace header.is64Bit)
  strings : ∀ c ∈ symbolTableLoadCommand commands, InFile machoData c.stringPlace
  indirects : ∀ c ∈ indirectSymbolTableLoadCommand commands, c.Loads machoData

theorem exists_option_mapM_eq_ok {α β : Type} {f : α → Run β} {o : Option α} :
    (∃ r, o.mapM f = .ok r) ↔ ∀ a ∈ o, ∃ b, f a = .ok b := by
  cases o with
  | none => exact iff_of_true ⟨_, rfl⟩ nofun
  | some a =>
    simp only [Option.mapM_some, Option.mem_some_iff, forall_eq']
    constructor
    · rintro ⟨r, hr⟩
      cases hb : f a with
      | error e =>
        rw [hb] at hr
        cases hr
      | ok b => exact ⟨b, rfl⟩
    · rintro ⟨b, hb⟩
      rw [hb]
      exact ⟨_, rfl⟩

/-- The constructors return exactly if the load commands are `Buildable`. -/
theorem build_returns_iff {machoData : Data} (name : String) {header : MachoHeader}
    {commands : List LoadCommand} :
    (∃ m, Macho.build machoData name header = .ok m ∧ m.loadCommands = commands) ↔
      (∃ d, machoData.subSequence header.data.count header.sizeOfAllLoadCommand.value.toNat = .ok d ∧
        loadCommands d = .ok commands) ∧
      commands.length = header.numberOfLoadCommands.value.toNat ∧
      Buildable machoData header commands := by
  constructor
  · rintro ⟨m, h, rfl⟩
    unfold Macho.build at h
    simp only [bind_eq_ok, guardElse_eq_ok] at h
    obtain ⟨commandData, hdata, commands, hcommands, _, hcount, relocations, hrelocations, symbols,
      hsymbols, strings, hstrings, indirects, hindirects, sections, hsections, linked, hlinked, dyld,
      hdyld, h⟩ := h
    cases h
    refine ⟨⟨commandData, hdata, hcommands⟩, beq_iff_eq.mp hcount, ?_⟩
    exact {
      sections := fun s hs => createComponent_returns_iff.mp (exists_mapM_eq_ok.mp ⟨_, hsections⟩ s hs)
      relocations := fun c hc => relocationTable_returns_iff.mp
        (exists_mapM_eq_ok.mp ⟨_, hrelocations⟩ c hc)
      linkedITs := fun c hc => (linkedITComponent_returns_iff header.is64Bit c.2.1).mp
        (exists_mapM_eq_ok.mp ⟨_, hlinked⟩ c hc)
      dyldInfos := fun c hc => (dyldInfoComponents_returns_iff header.is64Bit).mp
        (exists_mapM_eq_ok.mp ⟨_, hdyld⟩ c hc)
      symbols := fun c hc => symbolTable_returns_iff.mp
        (exists_option_mapM_eq_ok.mp ⟨_, hsymbols⟩ c hc)
      strings := fun c hc => stringTable_returns_iff.mp
        (exists_option_mapM_eq_ok.mp ⟨_, hstrings⟩ c hc)
      indirects := fun c hc => (indirectSymbolTable_returns_iff header.is64Bit).mp
        (exists_option_mapM_eq_ok.mp ⟨_, hindirects⟩ c hc) }
  · rintro ⟨⟨d, hd, hcommands⟩, hcount, h⟩
    obtain ⟨relocations, hrelocations⟩ := exists_mapM_eq_ok.mpr fun c hc =>
      relocationTable_returns_iff.mpr (h.relocations c hc)
    obtain ⟨symbols, hsymbols⟩ := exists_option_mapM_eq_ok.mpr fun c hc =>
      symbolTable_returns_iff.mpr (h.symbols c hc)
    obtain ⟨strings, hstrings⟩ := exists_option_mapM_eq_ok.mpr fun c hc =>
      stringTable_returns_iff.mpr (h.strings c hc)
    obtain ⟨indirects, hindirects⟩ := exists_option_mapM_eq_ok.mpr fun c hc =>
      (indirectSymbolTable_returns_iff header.is64Bit).mpr (h.indirects c hc)
    obtain ⟨sections, hsections⟩ := exists_mapM_eq_ok.mpr fun s hs =>
      createComponent_returns_iff.mpr (h.sections s hs)
    obtain ⟨linked, hlinked⟩ := exists_mapM_eq_ok.mpr fun c hc =>
      (linkedITComponent_returns_iff header.is64Bit c.2.1).mpr (h.linkedITs c hc)
    obtain ⟨dyld, hdyld⟩ := exists_mapM_eq_ok.mpr fun c hc =>
      (dyldInfoComponents_returns_iff header.is64Bit).mpr (h.dyldInfos c hc)
    unfold Macho.build
    simp only [bind_eq_ok, guardElse_eq_ok]
    exact ⟨_, ⟨d, hd, commands, hcommands, (), beq_iff_eq.mpr hcount, relocations, hrelocations,
      symbols, hsymbols, strings, hstrings, indirects, hindirects, sections, hsections, linked,
      hlinked, dyld, hdyld, rfl⟩, rfl⟩

/-- The tables a component may look for. -/
inductive Table where
  | strings
  | symbols
  | indirects
  deriving DecidableEq

/-- The table the observer of a component looks for. -/
def ComponentKind.needs : ComponentKind → Option Table
  | .symbolTable _ | .functionStarts _ _ => some .strings
  | .indirectSymbolTable _ => some .symbols
  | .symbolPointer _ _ _ => some .indirects
  | _ => none

/-- Whether the commands of a file locate a table. An indirect symbol table may be empty. -/
def Locates (commands : List LoadCommand) : Table → Prop
  | .strings | .symbols => (symbolTableLoadCommand commands).isSome = true
  | .indirects => ∃ c ∈ indirectSymbolTableLoadCommand commands, c.nindirectsyms.value.toNat ≠ 0

/-- The tables that are looked for are located: by the function starts, by a non-empty indirect symbol
table and by the sections of symbol pointers. -/
structure Complete (commands : List LoadCommand) : Prop where
  starts : ∀ c ∈ linkedITDataLoadCommands commands, c.1 = .functionStarts → Locates commands .strings
  indirects : Locates commands .indirects → Locates commands .symbols
  pointers : ∀ s ∈ (segmentCommands commands).flatMap LCSegment.sectionHeaders,
    s.sectionType.value.isSymbolPointers = true → Locates commands .indirects

section Tables

variable {machoData : Data} {header : MachoHeader} {m : Macho}

theorem namedSectionKind_needs (s : SectionHeader) : (namedSectionKind s).needs = none := by
  unfold namedSectionKind
  split_ifs <;> rfl

theorem createComponent_needs {s : SectionHeader} {c : MachoComponent}
    (h : createComponent machoData header s = .ok c)
    (hno : s.sectionType.value.isSymbolPointers = false) : c.kind.needs = none := by
  unfold createComponent at h
  rw [bind_eq_ok] at h
  obtain ⟨size, -, h⟩ := h
  cases htype : s.sectionType.value with
  | S_ZEROFILL | S_THREAD_LOCAL_ZEROFILL | S_GB_ZEROFILL =>
    rw [htype] at h
    cases h
    rfl
  | S_CSTRING_LITERALS =>
    rw [htype, bind_eq_ok] at h
    obtain ⟨d, -, h⟩ := h
    cases h
    rfl
  | S_LITERAL_POINTERS =>
    rw [htype, bind_eq_ok] at h
    obtain ⟨d, -, h⟩ := h
    obtain ⟨-, rfl⟩ := pointerComponent_eq_ok h
    rfl
  | S_LAZY_SYMBOL_POINTERS | S_NON_LAZY_SYMBOL_POINTERS | S_LAZY_DYLIB_SYMBOL_POINTERS =>
    rw [htype] at hno
    cases hno
  | _ =>
    rw [htype] at h
    simp only at h
    split at h
    · rw [bind_eq_ok] at h
      obtain ⟨d, -, h⟩ := h
      obtain ⟨arch, rfl⟩ := instructionComponent_data h
      rfl
    · rw [bind_eq_ok] at h
      obtain ⟨d, -, h⟩ := h
      cases h
      exact namedSectionKind_needs s

theorem linkedITComponent_needs {t : LCLinkedITData} {type : LoadCommandType} {title : String}
    {is64Bit : Bool} {text : Option LCSegment} {c : MachoComponent}
    (h : t.linkedITComponent type title machoData is64Bit text = .ok c) :
    c.kind.needs = if type = .functionStarts then some .strings else none := by
  unfold LCLinkedITData.linkedITComponent at h
  rw [bind_eq_ok] at h
  obtain ⟨d, -, h⟩ := h
  split at h
  · cases h
    rfl
  · cases h
    rfl
  · rw [guardLet_bind] at h
    obtain ⟨segment, -, h⟩ := h
    obtain ⟨starts, -, rfl⟩ := functionStartsComponent_eq_ok h
    rfl
  · cases h
    rfl
  · rename_i hno _
    cases h
    rw [if_neg hno]
    rfl

theorem dyldInfoComponents_needs {t : LCDyldInfo} {is64Bit : Bool} {cs : List MachoComponent}
    (h : t.dyldInfoComponents machoData is64Bit = .ok cs) : ∀ c ∈ cs, c.kind.needs = none := by
  unfold LCDyldInfo.dyldInfoComponents at h
  rw [bind_eq_ok] at h
  obtain ⟨opts, hopts, h⟩ := h
  cases h
  have hblocks : ∀ b ∈ t.blocks is64Bit, b.2.2.2.needs = none := by
    simp [LCDyldInfo.blocks, ComponentKind.needs]
  intro c hc
  rw [List.reduceOption_mem_iff] at hc
  obtain ⟨b, hb, hcut⟩ := forall₂_exists_left (mapM_eq_ok.mp hopts) hc
  rw [dyldInfoComponent_kind hcut]
  exact hblocks b hb

/-- The position of a table. -/
def Macho.tableID (m : Macho) : Table → Option Nat
  | .strings => m.stringTableID
  | .symbols => m.symbolTableID
  | .indirects => m.indirectSymbolTableID

/-- An observer returns exactly if it finds its table. -/
theorem registersWith_returns_iff {kind : ComponentKind} :
    (∃ parents, m.registersWith kind = .ok parents) ↔
      ∀ t, kind.needs = some t → (m.tableID t).isSome = true := by
  have hone : ∀ {o : Option Nat}, (∃ parents, (do return [← guardLet o] : Run (List Nat)) = .ok parents) ↔
      o.isSome = true := by
    intro o
    simp only [registersOne_eq_ok, Option.isSome_iff_exists]
    constructor
    · rintro ⟨parents, p, hp, -⟩
      exact ⟨p, hp⟩
    · rintro ⟨p, hp⟩
      exact ⟨_, p, hp, rfl⟩
  cases kind with
  | symbolTable | functionStarts | indirectSymbolTable | symbolPointer =>
    unfold Macho.registersWith ComponentKind.needs
    simp only [hone, Option.some_inj, forall_eq']
    rfl
  | _ => exact iff_of_true ⟨_, rfl⟩ nofun

/-- What the tables of a file are. -/
theorem tables_kind (h : m.Built machoData header) :
    (∀ c, m.stringTable = some c → c.kind = .stringTable) ∧
      (∀ c, m.symbolTable = some c → c.kind = .symbolTable header.is64Bit) ∧
      ∀ c, m.indirectSymbolTable = some c → c.kind = .indirectSymbolTable header.is64Bit := by
  refine ⟨?_, ?_, ?_⟩
  · intro c hc
    obtain ⟨t, -, ht⟩ := forall₂_exists_left h.strings (Option.mem_toList.mpr hc)
    rw [(stringTable_eq_ok ht).2]
  · intro c hc
    obtain ⟨t, -, ht⟩ := forall₂_exists_left h.symbols (Option.mem_toList.mpr hc)
    rw [(symbolTable_eq_ok ht).2]
  · intro c hc
    obtain ⟨table, htable, hjoin⟩ := h.indirects
    rw [hjoin, Option.join_eq_some_iff] at hc
    obtain ⟨t, -, ht⟩ := forall₂_exists_left htable (Option.mem_toList.mpr hc)
    rcases indirectSymbolTable_eq_ok ht with ⟨-, hnone⟩ | ⟨offset, size, -, -, hsome⟩
    · cases hnone
    · cases hsome
      rfl

theorem isSome_of_forall₂ {α β : Type} {R : α → β → Prop} {o : Option α} {p : Option β}
    (h : List.Forall₂ R o.toList p.toList) : o.isSome = p.isSome := by
  have hlength := h.length_eq
  cases o <;> cases p <;> first | rfl | cases hlength

/-- The indirect symbol table is there when it has entries. -/
theorem indirectSymbolTable_isSome_iff (h : m.Built machoData header) :
    m.indirectSymbolTable.isSome = true ↔ Locates m.loadCommands .indirects := by
  obtain ⟨table, htable, hjoin⟩ := h.indirects
  unfold Locates
  rw [hjoin]
  cases hcommand : indirectSymbolTableLoadCommand m.loadCommands with
  | none =>
    rw [hcommand] at htable
    cases table with
    | none => exact iff_of_false nofun (by rintro ⟨c, hc, -⟩; cases hc)
    | some x => cases htable
  | some c =>
    rw [hcommand] at htable
    cases table with
    | none => cases htable
    | some x =>
      have hx := (List.forall₂_cons.mp htable).1
      have hplace : c.indirectPlace = none ↔ c.nindirectsyms.value.toNat = 0 := by
        unfold LCDynamicSymbolTable.indirectPlace
        split_ifs with hzero
        · exact iff_of_true rfl hzero
        · exact iff_of_false nofun hzero
      simp only [Option.mem_some_iff, exists_eq_left', Option.join_some]
      rcases indirectSymbolTable_eq_ok hx with ⟨hnone, rfl⟩ | ⟨offset, size, hsome, -, rfl⟩
      · exact iff_of_false nofun fun hne => hne (hplace.mp hnone)
      · refine iff_of_true rfl fun hzero => ?_
        rw [hplace.mpr hzero] at hsome
        cases hsome

/-- A table that is there is found. -/
theorem findIdx?_isSome_of_mem {p : MachoComponent → Bool} {c : MachoComponent}
    (hc : c ∈ m.allComponents) (hp : p c = true) : (m.allComponents.findIdx? p).isSome = true := by
  rw [List.findIdx?_isSome, List.any_eq_true]
  exact ⟨c, hc, hp⟩

/-- **The tables** a file has are the ones its commands locate. -/
theorem tableID_isSome_iff (h : m.Built machoData header) (t : Table) :
    (m.tableID t).isSome = true ↔ Locates m.loadCommands t := by
  obtain ⟨hstrings, hsymbols, hindirects⟩ := tables_kind h
  -- a component of the kind of a table is that table
  have hcases : ∀ {i c}, m.allComponents[i]? = some c → c.kind.isTable = true →
      m.symbolTable = some c ∨ m.indirectSymbolTable = some c ∨ m.stringTable = some c :=
    fun hc htable => table_of_mem h (List.mem_of_getElem? hc) htable
  cases t with
  | strings =>
    change m.stringTableID.isSome = true ↔ (symbolTableLoadCommand m.loadCommands).isSome = true
    rw [isSome_of_forall₂ h.strings, Option.isSome_iff_exists, Option.isSome_iff_exists]
    constructor
    · rintro ⟨i, hi⟩
      obtain ⟨c, hc, hkind⟩ := stringTableID_kind hi
      rcases hcases hc (by rw [hkind]; rfl) with heq | heq | heq
      · cases (hsymbols c heq).symm.trans hkind
      · cases (hindirects c heq).symm.trans hkind
      · exact ⟨c, heq⟩
    · rintro ⟨c, hc⟩
      refine Option.isSome_iff_exists.mp (findIdx?_isSome_of_mem (c := c) ?_ ?_)
      · simp [Macho.allComponents, hc]
      · exact decide_eq_true (hstrings c hc)
  | symbols =>
    change m.symbolTableID.isSome = true ↔ (symbolTableLoadCommand m.loadCommands).isSome = true
    rw [isSome_of_forall₂ h.symbols, Option.isSome_iff_exists, Option.isSome_iff_exists]
    constructor
    · rintro ⟨i, hi⟩
      obtain ⟨c, b, hc, hkind⟩ := symbolTableID_kind hi
      rcases hcases hc (by rw [hkind]; rfl) with heq | heq | heq
      · exact ⟨c, heq⟩
      · cases (hindirects c heq).symm.trans hkind
      · cases (hstrings c heq).symm.trans hkind
    · rintro ⟨c, hc⟩
      refine Option.isSome_iff_exists.mp (findIdx?_isSome_of_mem (c := c) ?_ ?_)
      · simp [Macho.allComponents, hc]
      · rw [hsymbols c hc]
  | indirects =>
    change m.indirectSymbolTableID.isSome = true ↔ _
    rw [← indirectSymbolTable_isSome_iff h, Option.isSome_iff_exists, Option.isSome_iff_exists]
    constructor
    · rintro ⟨i, hi⟩
      obtain ⟨c, b, hc, hkind⟩ := indirectSymbolTableID_kind hi
      rcases hcases hc (by rw [hkind]; rfl) with heq | heq | heq
      · cases (hsymbols c heq).symm.trans hkind
      · exact ⟨c, heq⟩
      · cases (hstrings c heq).symm.trans hkind
    · rintro ⟨c, hc⟩
      refine Option.isSome_iff_exists.mp (findIdx?_isSome_of_mem (c := c) ?_ ?_)
      · simp [Macho.allComponents, hc]
      · rw [hindirects c hc]

/-- **What the components of a file look for** is there exactly if the commands are `Complete`. -/
theorem complete_iff (h : m.Built machoData header) :
    (∀ c ∈ m.allComponents, ∃ parents, m.registersWith c.kind = .ok parents) ↔
      Complete m.loadCommands := by
  simp only [registersWith_returns_iff, tableID_isSome_iff h]
  obtain ⟨hstrings, hsymbols, hindirects⟩ := tables_kind h
  constructor
  · intro hall
    refine ⟨?_, ?_, ?_⟩
    · intro c hc hstarts
      obtain ⟨x, hx, hcomponent⟩ := forall₂_exists_right h.linkedITs hc
      refine hall x (by simp [Macho.allComponents, hx]) .strings ?_
      rw [linkedITComponent_needs hcomponent, if_pos hstarts]
    · intro hlocated
      obtain ⟨c, hc⟩ := Option.isSome_iff_exists.mp ((indirectSymbolTable_isSome_iff h).mpr hlocated)
      refine hall c (by simp [Macho.allComponents, hc]) .symbols ?_
      rw [hindirects c hc]
      rfl
    · intro s hs htype
      obtain ⟨c, hc, hcreate⟩ := forall₂_exists_right h.sections hs
      refine hall c (by simp [Macho.allComponents, hc]) .indirects ?_
      rw [(createComponent_eq_ok hcreate).2.2 htype]
      rfl
  · intro hcomplete c hc t ht
    simp only [Macho.allComponents, List.mem_append, Option.mem_toList, or_assoc] at hc
    rcases hc with hc | hc | hc | hc | hc | hc | hc | hc | hc
    · rw [List.mem_singleton.mp hc] at ht
      cases ht
    · obtain ⟨command, -, rfl⟩ := List.mem_map.mp hc
      cases ht
    · obtain ⟨s, hs, hcreate⟩ := forall₂_exists_left h.sections hc
      by_cases htype : s.sectionType.value.isSymbolPointers = true
      · rw [(createComponent_eq_ok hcreate).2.2 htype] at ht
        cases ht
        exact hcomplete.pointers s hs htype
      · rw [createComponent_needs hcreate (by simpa using htype)] at ht
        cases ht
    · obtain ⟨tables, htables, hflat⟩ := h.relocations
      rw [hflat, List.reduceOption_mem_iff] at hc
      obtain ⟨s, -, hs⟩ := forall₂_exists_left htables hc
      obtain ⟨infos, -, hkind⟩ := relocationComponent_eq_ok hs
      rw [hkind] at ht
      cases ht
    · obtain ⟨x, hx, hcomponent⟩ := forall₂_exists_left h.linkedITs hc
      rw [linkedITComponent_needs hcomponent] at ht
      split_ifs at ht with hstarts
      cases ht
      exact hcomplete.starts x hx hstarts
    · obtain ⟨blocks, hblocks, hflat⟩ := h.dyldInfos
      rw [hflat, List.mem_flatten] at hc
      obtain ⟨cs, hcs, hc⟩ := hc
      obtain ⟨x, -, hx⟩ := forall₂_exists_left hblocks hcs
      rw [dyldInfoComponents_needs hx c hc] at ht
      cases ht
    · rw [hsymbols c hc] at ht
      cases ht
      exact (isSome_of_forall₂ h.symbols).trans (Option.isSome_iff_exists.mpr ⟨c, hc⟩)
    · rw [hindirects c hc] at ht
      cases ht
      exact hcomplete.indirects ((indirectSymbolTable_isSome_iff h).mp
        (Option.isSome_iff_exists.mpr ⟨c, hc⟩))
    · rw [hstrings c hc] at ht
      cases ht

end Tables

/-- **The files that can be opened.** `Macho.init` returns exactly if the header says where the load
commands are, they are load commands, as many as the header says, every part of the file they locate
can be cut out of it, and every table that is looked for is located. -/
theorem init_returns_iff {machoData : Data} {name : String} {header : MachoHeader} :
    (∃ m, Macho.init machoData name header = .ok m) ↔
      InFile machoData (header.data.count, header.sizeOfAllLoadCommand.value.toNat) ∧
      ∃ commands, CommandsFrom (machoData.window header.data.count
          header.sizeOfAllLoadCommand.value.toNat) 0 commands ∧
        commands.length = header.numberOfLoadCommands.value.toNat ∧
        Buildable machoData header commands ∧ Complete commands := by
  have hparts : (∃ m, Macho.init machoData name header = .ok m) ↔
      ∃ m, Macho.build machoData name header = .ok m ∧ ∃ edges, m.setMacho = .ok edges := by
    unfold Macho.init
    simp only [bind_eq_ok]
    constructor
    · rintro ⟨m, b, hb, edges, hset, -⟩
      exact ⟨b, hb, edges, hset⟩
    · rintro ⟨b, hb, edges, hset⟩
      exact ⟨_, b, hb, edges, hset, rfl⟩
  rw [hparts]
  constructor
  · rintro ⟨m, hbuild, hset⟩
    obtain ⟨⟨d, hd, hcommands⟩, hcount, hbuildable⟩ := (build_returns_iff name).mp ⟨m, hbuild, rfl⟩
    obtain ⟨hpos, hfit, rfl⟩ := subSequence_eq_ok.mp hd
    exact ⟨⟨hpos, hfit⟩, m.loadCommands, loadCommands_eq_ok.mp hcommands, hcount, hbuildable,
      (complete_iff (build_built hbuild)).mp (setMacho_returns_iff.mp hset)⟩
  · rintro ⟨⟨hpos, hfit⟩, commands, hcommands, hcount, hbuildable, hcomplete⟩
    obtain ⟨m, hbuild, rfl⟩ := (build_returns_iff name).mpr
      ⟨⟨_, subSequence_ok hpos hfit, loadCommands_eq_ok.mpr hcommands⟩, hcount, hbuildable⟩
    exact ⟨m, hbuild, setMacho_returns_iff.mpr ((complete_iff (build_built hbuild)).mpr hcomplete)⟩

end Mocha
