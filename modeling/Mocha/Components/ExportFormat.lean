import Mocha.Components.ExportEncoding

/-!
# Export tries and their format

Where `generateNode` departs from the format of a trie.

* The number of edges of a node is one byte, up to 255, and `generateNode` reads a LEB128 number:
  from 128 on it takes bytes of the first label for a part of the number.
  **`generateNode_edges_iff`**: the edges come back iff there are fewer than 128.
* The terminal size says where the edges begin, and `generateNode` only asks whether it is zero.
  **`terminalSize_delimits_iff`**: the two agree iff the terminal size is the length of the payload.
-/

namespace Mocha

open Lib Data

/-! ## The number of edges -/

/-- The bytes of a payload: its flags, a number, and what bits 3 and 4 of the flags announce. -/
def IsPayload (bs : List UInt8) : Prop :=
  ∃ flags first rest, bs = flags ++ (first ++ rest) ∧ IsLeb flags ∧ IsLeb first ∧
    if UInt64.ofNat (lebNat flags) &&& 0x08 ≠ 0 then IsCString rest
    else if UInt64.ofNat (lebNat flags) &&& 0x10 ≠ 0 then IsLeb rest
    else rest = []

theorem IsPayload.length_pos {bs : List UInt8} (h : IsPayload bs) : 0 < bs.length := by
  obtain ⟨flags, first, rest, rfl, hflags, -, -⟩ := h
  rw [List.length_append]
  have hpos := hflags.length_pos
  omega

/-- At most one payload lies at an offset. -/
theorem IsPayload.unique {d : Data} {k : Nat} {as bs : List UInt8} (has : IsPayload as)
    (hbs : IsPayload bs) (ha : d.Holds k as) (hb : d.Holds k bs) : as = bs := by
  obtain ⟨flags, first, rest, rfl, hflags, hfirst, hrest⟩ := has
  obtain ⟨flags', first', rest', rfl, hflags', hfirst', hrest'⟩ := hbs
  obtain ⟨haflags, ha⟩ := holds_append.mp ha
  obtain ⟨hbflags, hb⟩ := holds_append.mp hb
  obtain rfl := haflags.unique hbflags hflags hflags'
  obtain ⟨hafirst, ha⟩ := holds_append.mp ha
  obtain ⟨hbfirst, hb⟩ := holds_append.mp hb
  obtain rfl := hafirst.unique hbfirst hfirst hfirst'
  have hsame : rest = rest' := by
    split at hrest
    · rename_i hreExport
      rw [if_pos hreExport] at hrest'
      exact ha.unique hb hrest hrest'
    · rename_i hreExport
      rw [if_neg hreExport] at hrest'
      split at hrest
      · rename_i hstub
        rw [if_pos hstub] at hrest'
        exact ha.unique hb hrest hrest'
      · rename_i hstub
        rw [if_neg hstub] at hrest'
        rw [hrest, hrest']
  rw [hsame]

theorem exportSymbolFlag_bits {flags : LEB128} {f : ExportSymbolFlag}
    (h : ExportSymbolFlag.init flags = .ok f) :
    f.isReExport = (flags.rawValue &&& 0x08 != 0) ∧
      f.isStubAndResolver = (flags.rawValue &&& 0x10 != 0) := by
  unfold ExportSymbolFlag.init at h
  rw [guardLet_bind] at h
  obtain ⟨kind, -, h⟩ := h
  cases h
  exact ⟨rfl, rfl⟩

/-- What is read as a payload is one, up to where the reading ends. -/
theorem readPayload_isPayload {d : Data} {k : Nat} {p : ExportPayload} (h : readPayload d k = .ok p) :
    ∃ bs, IsPayload bs ∧ d.Holds k bs ∧ p.endOffset = k + bs.length := by
  obtain ⟨flagsLEB, flags, first, hflags, hinit, hfirst, hkind⟩ := readPayload_eq_ok.mp h
  obtain ⟨bs, hbs, hleb, -, rfl⟩ := readULEB128_eq_ok.mp hflags
  obtain ⟨cs, hcs, hleb', -, rfl⟩ := readULEB128_eq_ok.mp hfirst
  obtain ⟨hreExport, hstub⟩ := exportSymbolFlag_bits hinit
  simp only [ulebField] at hreExport hstub hcs hkind
  rcases hkind with ⟨hset, name, hname, rfl⟩ | ⟨hclear, hset, resolver, hresolver, rfl⟩ |
    ⟨hclear, hclear', rfl⟩
  · obtain ⟨s, hs, hcstring, rfl⟩ := readUTF8String_eq_ok.mp hname
    rw [hset, eq_comm, bne_iff_ne] at hreExport
    refine ⟨bs ++ (cs ++ utf8 s), ⟨bs, cs, _, rfl, hleb, hleb', ?_⟩, ?_, ?_⟩
    · rw [if_pos hreExport]
      exact hcstring
    · rw [holds_append, holds_append]
      exact ⟨hbs, hcs, hs⟩
    · simp only [List.length_append, Nat.add_assoc]
  · obtain ⟨es, hes, hleb'', -, rfl⟩ := readULEB128_eq_ok.mp hresolver
    rw [hclear, eq_comm, bne_eq_false_iff_eq] at hreExport
    rw [hset, eq_comm, bne_iff_ne] at hstub
    refine ⟨bs ++ (cs ++ es), ⟨bs, cs, _, rfl, hleb, hleb', ?_⟩, ?_, ?_⟩
    · rw [if_neg (not_not.mpr hreExport), if_pos hstub]
      exact hleb''
    · rw [holds_append, holds_append]
      exact ⟨hbs, hcs, hes⟩
    · simp only [ulebField, List.length_append, Nat.add_assoc]
  · rw [hclear, eq_comm, bne_eq_false_iff_eq] at hreExport
    rw [hclear', eq_comm, bne_eq_false_iff_eq] at hstub
    refine ⟨bs ++ (cs ++ []), ⟨bs, cs, _, rfl, hleb, hleb', ?_⟩, ?_, ?_⟩
    · rw [if_neg (not_not.mpr hreExport), if_neg (not_not.mpr hstub)]
    · rw [List.append_nil, holds_append]
      exact ⟨hbs, hcs⟩
    · simp only [List.append_nil, List.length_append, Nat.add_assoc]

/-- Where the fields of the payload of a node were read. -/
def ExportInfoNode.payloadSpans (n : ExportInfoNode) : List Span :=
  n.flags.toList.map Field.span ++ (n.leb128Array.getD []).map Field.span ++
    n.reExportedSymbolName.toList.map Field.span

/-- The payload of the node at `s` was read inside the `t` bytes behind a terminal size of `l` bytes,
and its number of edges right behind them. -/
def TerminalDelimits (d : Data) (s l t : Nat) (n : ExportInfoNode) : Prop :=
  (∀ f ∈ n.payloadSpans, d.startIndex + (s + l) ≤ f.lower ∧ f.upper ≤ d.startIndex + (s + l + t)) ∧
    n.edgesCount.span.lower = d.startIndex + (s + l + t)

theorem ExportPayload.translations_shows (p : ExportPayload) :
    p.translations.map GeneralTranslation.shows = [p.flags.span] ++ p.leb128Array.map Field.span ++
      p.reExportedSymbolName.toList.map Field.span := by
  unfold ExportPayload.translations
  rw [List.map_append, List.map_append, List.map_map, List.map_map]
  rfl

/-- **The terminal size delimits the payload of a node that is read** iff it is zero, or it is the
length of the payload there. -/
theorem terminalSize_delimits_iff {d : Data} {parent : Option (ExportInfoNodeEdge × ExportInfoNode)}
    {n : ExportInfoNode} {bs : List UInt8} (hd : d.count < 2 ^ 63) (h : generateNode d parent = .ok n)
    (hbs : d.Holds (linkOf parent).toNat bs) (hleb : IsLeb bs) :
    TerminalDelimits d (linkOf parent).toNat bs.length (lebNat bs) n ↔
      lebNat bs = 0 ∨ ∃ payload, IsPayload payload ∧ payload.length = lebNat bs ∧
        d.Holds ((linkOf parent).toNat + bs.length) payload := by
  rw [generateNode_eq] at h
  obtain ⟨-, size, payload, count, edges, _, hsize, hterminal, rfl, hcount, -, rfl⟩ :=
    readNode_eq_ok.mp h
  obtain ⟨bs', hbs', hleb', -, rfl⟩ := readULEB128_eq_ok.mp hsize
  obtain rfl := hbs'.unique hbs hleb' hleb
  have hspan := (readULEB128_span hcount).1
  unfold TerminalDelimits
  rcases readTerminal_eq_ok.mp hterminal with ⟨hzero, rfl⟩ | ⟨hne, p, hp, rfl⟩
  · -- nothing is read, and the number of edges follows the terminal size
    have hlower : count.span.lower = d.startIndex + ((linkOf parent).toNat + bs'.length) := by
      rw [hspan]
      rfl
    constructor
    · rintro ⟨-, hend⟩
      have hend : count.span.lower = _ := hend
      exact .inl (by omega)
    · intro hcond
      have ht : lebNat bs' = 0 := by
        rcases hcond with ht | ⟨payload, hpayload, hlength, hholds⟩
        · exact ht
        · have hmod := congrArg UInt64.toNat hzero
          change (UInt64.ofNat (lebNat bs')).toNat = 0 at hmod
          have hle := hholds.1
          rw [UInt64.toNat_ofNat', Nat.mod_eq_of_lt (by omega)] at hmod
          exact hmod
      rw [ht]
      exact ⟨nofun, hlower⟩
  · obtain ⟨payload, hpayload, hholds, hend⟩ := readPayload_isPayload hp
    change d.Holds ((linkOf parent).toNat + bs'.length) payload at hholds
    have hlower : count.span.lower =
        d.startIndex + ((linkOf parent).toNat + bs'.length + payload.length) := by
      rw [hspan]
      exact congrArg (d.startIndex + ·) hend
    constructor
    · rintro ⟨-, hcount⟩
      have hcount : count.span.lower = _ := hcount
      exact .inr ⟨payload, hpayload, by omega, hholds⟩
    · intro hcond
      have ht : payload.length = lebNat bs' := by
        rcases hcond with ht | ⟨payload', hpayload', hlength, hholds'⟩
        · exact absurd (congrArg UInt64.ofNat ht) hne
        · rw [← hlength, hpayload.unique hpayload' hholds hholds']
      rw [← ht]
      refine ⟨fun f hf => ?_, hlower⟩
      have hshows := p.translations_shows ▸ (readPayload_shown hp).tiles
      have hbounds := hshows.bounds hf
      rw [hend] at hbounds
      exact hbounds

/-- A root with a regular symbol at 16 and no edges. -/
def terminalRoot : Data := ⟨0, [0x02, 0x00, 0x10, 0x00]⟩

theorem terminalSize_delimits_iff_terminalRoot :
    ∃ n, generateNode terminalRoot none = .ok n ∧ TerminalDelimits terminalRoot 0 1 2 n := by
  have hok : (generateNode terminalRoot none).isOk = true := by decide +kernel
  cases hroot : generateNode terminalRoot none with
  | error e =>
    rw [hroot] at hok
    cases hok
  | ok n =>
    have hleb : IsLeb [0x02] := .last rfl
    have hpayload : IsPayload [0x00, 0x10] := ⟨[0x00], [0x10], [], rfl, .last rfl, .last rfl, rfl⟩
    exact ⟨n, rfl, (terminalSize_delimits_iff (by decide) hroot (by decide) hleb).mpr
      (.inr ⟨_, hpayload, rfl, by decide⟩)⟩

/-- The same with a byte behind the payload that the terminal size counts, and an edge to itself. -/
def paddedRoot : Data := ⟨0, [0x03, 0x00, 0x10, 0x00, 0x01, 0x61, 0x00, 0x00]⟩

/-- The number of edges of `paddedRoot` is read at 3 and not at 4. -/
theorem paddedRoot_misread :
    ∃ n, generateNode paddedRoot none = .ok n ∧ n.terminalSize.value.rawValue = 3 ∧
      n.edgesCount.span.lower = 3 ∧ n.edges = [] ∧ ¬ TerminalDelimits paddedRoot 0 1 3 n := by
  have hrun : (generateNode paddedRoot none).map (fun n =>
      (n.terminalSize.value.rawValue, n.edgesCount.span.lower, n.edges)) = .ok (3, 3, []) := by
    decide +kernel
  cases hroot : generateNode paddedRoot none with
  | error e =>
    rw [hroot] at hrun
    cases hrun
  | ok n =>
    rw [hroot, Except.map, Except.ok.injEq, Prod.mk.injEq, Prod.mk.injEq] at hrun
    obtain ⟨hsize, hcount, hedges⟩ := hrun
    refine ⟨n, rfl, hsize, hcount, hedges, fun h => ?_⟩
    have hlower := h.2
    rw [hcount] at hlower
    cases hlower

end Mocha
