import Mocha.Components.ExportInfo

/-!
# One node of an export trie

What `generateNode` reads depends on the offset alone; the parent only gives the name. `readNode` is
its body as a function of the two, and `readNode_eq_ok` lists the reads. The node's fields lie one
behind the other from its offset on (`readNode_shown`), up to `endOffsetInMacho`, and none of the
reads recurses (`readNode_ne_stackOverflow`).
-/

namespace Mocha

open Lib Data

/-- The offset an edge leads to; the root is at `0`. -/
def linkOf (parent : Option (ExportInfoNodeEdge × ExportInfoNode)) : UInt64 :=
  (parent.map fun p => p.1.offset.value.rawValue).getD 0

/-- The name of the node an edge leads to. -/
def nameOf (parent : Option (ExportInfoNodeEdge × ExportInfoNode)) : String :=
  (parent.map fun p => p.2.accumulatedString ++ p.1.edgeName.value.rawValue).getD ""

/-- The payload of a node whose terminal size has been read, up to `endOffset`. -/
def readTerminal (d : Data) (terminalSize : Field LEB128) (endOffset : Nat) :
    Run (Option ExportPayload) :=
  if terminalSize.value.rawValue != 0 then some <$> readPayload d endOffset else pure none

/-- The body of `generateNode` for a given offset and name. -/
def readNode (d : Data) (offset : UInt64) (accumulatedString : String) : Run ExportInfoNode := do
  if 2 ^ 63 ≤ offset.toNat then .error .overflow
  let terminalSize ← readULEB128 d offset.toNat
  let endOffset := offset.toNat + terminalSize.value.byteCount
  let payload ← readTerminal d terminalSize endOffset
  let endOffset := (payload.map ExportPayload.endOffset).getD endOffset
  let edgesCount ← readULEB128 d endOffset
  let edges ← readEdges d edgesCount.value.rawValue.toNat (endOffset + edgesCount.value.byteCount)
  return {
    startOffsetInMacho := d.startIndex + offset.toNat
    accumulatedString := accumulatedString
    terminalSize := terminalSize
    flags := payload.map ExportPayload.flags
    leb128Array := payload.map ExportPayload.leb128Array
    reExportedSymbolName := payload.bind ExportPayload.reExportedSymbolName
    edgesCount := edgesCount
    edges := edges }

theorem generateNode_eq (d : Data) (parent : Option (ExportInfoNodeEdge × ExportInfoNode)) :
    generateNode d parent = readNode d (linkOf parent) (nameOf parent) := by
  unfold generateNode readNode
  by_cases hlarge : 2 ^ 63 ≤ (linkOf parent).toNat
  · exact (if_pos hlarge).trans (if_pos hlarge).symm
  · refine (if_neg hlarge).trans (Eq.trans ?_ (if_neg hlarge).symm)
    refine bind_congr fun terminalSize => ?_
    unfold readTerminal
    split
    · rfl
    · rfl

theorem readTerminal_eq_ok {d : Data} {size : Field LEB128} {k : Nat} {payload : Option ExportPayload} :
    readTerminal d size k = .ok payload ↔
      (size.value.rawValue = 0 ∧ payload = none) ∨
        (size.value.rawValue ≠ 0 ∧ ∃ p, readPayload d k = .ok p ∧ payload = some p) := by
  unfold readTerminal
  by_cases hsize : size.value.rawValue = 0
  · simp only [hsize, bne_self_eq_false, Bool.false_eq_true, if_false, pure_eq_ok, Except.ok.injEq,
      true_and, ne_eq, not_true_eq_false, false_and, or_false]
    exact eq_comm
  · cases hread : readPayload d k with
    | error e => simp [hsize]
    | ok p =>
      simp only [bne_iff_ne, ne_eq, hsize, not_false_eq_true, if_true, false_and, true_and, false_or]
      constructor
      · intro h
        cases h
        exact ⟨p, rfl, rfl⟩
      · rintro ⟨q, hq, rfl⟩
        cases hq
        rfl

/-- A node under another name. -/
def ExportInfoNode.named (n : ExportInfoNode) (name : String) : ExportInfoNode :=
  { n with accumulatedString := name }

/-- The reads of a node. -/
theorem readNode_eq_ok {d : Data} {offset : UInt64} {name : String} {n : ExportInfoNode} :
    readNode d offset name = .ok n ↔ offset.toNat < 2 ^ 63 ∧
      ∃ terminalSize payload edgesCount edges endOffset,
        readULEB128 d offset.toNat = .ok terminalSize ∧
        readTerminal d terminalSize (offset.toNat + terminalSize.value.byteCount) = .ok payload ∧
        (payload.map ExportPayload.endOffset).getD
          (offset.toNat + terminalSize.value.byteCount) = endOffset ∧
        readULEB128 d endOffset = .ok edgesCount ∧
        readEdges d edgesCount.value.rawValue.toNat (endOffset + edgesCount.value.byteCount) =
          .ok edges ∧
        n = ⟨d.startIndex + offset.toNat, name, terminalSize, payload.map ExportPayload.flags,
          payload.map ExportPayload.leb128Array, payload.bind ExportPayload.reExportedSymbolName,
          edgesCount, edges⟩ := by
  unfold readNode
  by_cases hlarge : 2 ^ 63 ≤ offset.toNat
  · rw [if_pos hlarge]
    exact iff_of_false nofun fun h => absurd hlarge (Nat.not_le_of_lt h.1)
  · rw [if_neg hlarge]
    simp only [bind_eq_ok, pure_eq_ok, Except.ok.injEq]
    constructor
    · rintro ⟨size, hsize, payload, hpayload, count, hcount, edges, hedges, rfl⟩
      exact ⟨Nat.lt_of_not_le hlarge, size, payload, count, edges, _, hsize, hpayload, rfl, hcount,
        hedges, rfl⟩
    · rintro ⟨_, size, payload, count, edges, _, hsize, hpayload, rfl, hcount, hedges, rfl⟩
      exact ⟨size, hsize, payload, hpayload, count, hcount, edges, hedges, rfl⟩

/-- The name plays no part in the reads. -/
theorem readNode_named {d : Data} {offset : UInt64} (name other : String) :
    readNode d offset other = (readNode d offset name).map (·.named other) := by
  unfold readNode
  by_cases hlarge : 2 ^ 63 ≤ offset.toNat
  · rw [if_pos hlarge, if_pos hlarge]
    rfl
  · rw [if_neg hlarge, if_neg hlarge]
    simp only [map_bind]
    rfl

/-! ## The bytes of a node -/

/-- The offset after the last field. -/
def ExportInfoNode.endOffsetInMacho (n : ExportInfoNode) : Nat :=
  (n.edges.getLast?.map fun e => e.offset.span.upper).getD n.edgesCount.span.upper

theorem readULEB128_span {d : Data} {k : Nat} {f : Field LEB128} (h : readULEB128 d k = .ok f) :
    f.span = Span.of (d.startIndex + k) f.value.byteCount ∧ 0 < f.value.byteCount := by
  obtain ⟨bs, -, hleb, -, rfl⟩ := readULEB128_eq_ok.mp h
  exact ⟨rfl, hleb.length_pos⟩

theorem readUTF8String_span {d : Data} {k : Nat} {z : Bool} {f : Field CString}
    (h : readUTF8String d k z = .ok f) : f.span = Span.of (d.startIndex + k) f.value.byteCount := by
  obtain ⟨s, -, -, rfl⟩ := readUTF8String_eq_ok.mp h
  rfl

theorem shown_leb {d : Data} {k b : Nat} {f : Field LEB128} {t : GeneralTranslation}
    {ts : List GeneralTranslation} (h : readULEB128 d k = .ok f) (hshows : t.shows = f.span)
    (hcount : t.bytesCount = f.value.byteCount)
    (hts : Shown (d.startIndex + (k + f.value.byteCount)) b ts) :
    Shown (d.startIndex + k) b (t :: ts) := by
  rw [← Nat.add_assoc] at hts
  rw [shown_cons, hshows, hcount]
  exact ⟨(readULEB128_span h).1, hts⟩

theorem shown_string {d : Data} {k b : Nat} {z : Bool} {f : Field CString} {definition : String}
    {ts : List GeneralTranslation} (h : readUTF8String d k z = .ok f)
    (hts : Shown (d.startIndex + (k + f.value.byteCount)) b ts) :
    Shown (d.startIndex + k) b
      (f.translation definition f.value.rawValue f.value.byteCount .utf8String :: ts) := by
  rw [← Nat.add_assoc] at hts
  exact ⟨readUTF8String_span h, hts⟩

/-- The lines of a terminal node. -/
def ExportPayload.translations (p : ExportPayload) : List GeneralTranslation :=
  [(p.flags.translation "Kind" p.flags.value.kind.readable p.flags.value.byteCount .uleb).extra
    (some "Flags") (some p.flags.value.flagsDescription)] ++
  p.leb128Array.map (fun leb => lebLine leb "LEB" (hex leb.value.rawValue.toNat)) ++
  p.reExportedSymbolName.toList.map fun s =>
    s.translation "ReExported Symbol Name" s.value.rawValue s.value.byteCount .utf8String

theorem exportSymbolFlag_byteCount {flags : LEB128} {f : ExportSymbolFlag}
    (h : ExportSymbolFlag.init flags = .ok f) : f.byteCount = flags.byteCount := by
  unfold ExportSymbolFlag.init at h
  rw [guardLet_bind] at h
  obtain ⟨kind, -, h⟩ := h
  cases h
  rfl

/-- The reads of a payload, one case for each kind of symbol. -/
theorem readPayload_eq_ok {d : Data} {k : Nat} {p : ExportPayload} :
    readPayload d k = .ok p ↔ ∃ flagsLEB flags first,
      readULEB128 d k = .ok flagsLEB ∧ ExportSymbolFlag.init flagsLEB.value = .ok flags ∧
      readULEB128 d (k + flagsLEB.value.byteCount) = .ok first ∧
      ((flags.isReExport = true ∧ ∃ name,
          readUTF8String d (k + flagsLEB.value.byteCount + first.value.byteCount) false = .ok name ∧
          p = ⟨flagsLEB.map fun _ => flags, [first], some name,
            k + flagsLEB.value.byteCount + first.value.byteCount + name.value.byteCount⟩) ∨
        (flags.isReExport = false ∧ flags.isStubAndResolver = true ∧ ∃ resolver,
          readULEB128 d (k + flagsLEB.value.byteCount + first.value.byteCount) = .ok resolver ∧
          p = ⟨flagsLEB.map fun _ => flags, [first, resolver], none,
            k + flagsLEB.value.byteCount + first.value.byteCount + resolver.value.byteCount⟩) ∨
        (flags.isReExport = false ∧ flags.isStubAndResolver = false ∧
          p = ⟨flagsLEB.map fun _ => flags, [first], none,
            k + flagsLEB.value.byteCount + first.value.byteCount⟩)) := by
  unfold readPayload
  rw [bind_eq_ok]
  constructor
  · rintro ⟨flagsLEB, hflags, h⟩
    rw [bind_eq_ok] at h
    obtain ⟨flags, hinit, h⟩ := h
    rw [bind_eq_ok] at h
    obtain ⟨first, hfirst, h⟩ := h
    refine ⟨flagsLEB, flags, first, hflags, hinit, hfirst, ?_⟩
    split at h
    · rename_i hreExport
      rw [bind_eq_ok] at h
      obtain ⟨name, hname, h⟩ := h
      cases h
      exact .inl ⟨hreExport, name, hname, rfl⟩
    · rename_i hreExport
      rw [Bool.not_eq_true] at hreExport
      split at h
      · rename_i hstub
        rw [bind_eq_ok] at h
        obtain ⟨resolver, hresolver, h⟩ := h
        cases h
        exact .inr (.inl ⟨hreExport, hstub, resolver, hresolver, rfl⟩)
      · rename_i hstub
        rw [Bool.not_eq_true] at hstub
        cases h
        exact .inr (.inr ⟨hreExport, hstub, rfl⟩)
  · rintro ⟨flagsLEB, flags, first, hflags, hinit, hfirst, h⟩
    refine ⟨flagsLEB, hflags, ?_⟩
    rw [hinit, ok_bind, hfirst, ok_bind]
    rcases h with ⟨hre, name, hname, rfl⟩ | ⟨hre, hstub, resolver, hresolver, rfl⟩ | ⟨hre, hstub, rfl⟩
    · rw [if_pos hre, hname]
      rfl
    · rw [hre, if_neg Bool.false_ne_true, if_pos hstub, hresolver]
      rfl
    · rw [hre, if_neg Bool.false_ne_true, hstub, if_neg Bool.false_ne_true]
      rfl

theorem readPayload_shown {d : Data} {k : Nat} {p : ExportPayload} (h : readPayload d k = .ok p) :
    Shown (d.startIndex + k) (d.startIndex + p.endOffset) p.translations := by
  obtain ⟨flagsLEB, flags, first, hflags, hinit, hfirst, hkind⟩ := readPayload_eq_ok.mp h
  have hcount := exportSymbolFlag_byteCount hinit
  rcases hkind with ⟨-, name, hname, rfl⟩ | ⟨-, -, resolver, hresolver, rfl⟩ | ⟨-, -, rfl⟩
  · exact shown_leb hflags rfl hcount
      (shown_leb hfirst rfl rfl (shown_string hname (shown_nil.mpr rfl)))
  · exact shown_leb hflags rfl hcount
      (shown_leb hfirst rfl rfl (shown_leb hresolver rfl rfl (shown_nil.mpr rfl)))
  · exact shown_leb hflags rfl hcount (shown_leb hfirst rfl rfl (shown_nil.mpr rfl))

/-- The lines of an edge. -/
def ExportInfoNodeEdge.translations (e : ExportInfoNodeEdge) : List GeneralTranslation :=
  [e.edgeName.translation "Edge Name" e.edgeName.value.rawValue e.edgeName.value.byteCount .utf8String,
   lebLine e.offset "Edge Offset" (hex e.offset.value.rawValue.toNat)]

theorem readEdges_shown {d : Data} {n k : Nat} {es : List ExportInfoNodeEdge}
    (h : readEdges d n k = .ok es) :
    Shown (d.startIndex + k)
      ((es.getLast?.map fun e => e.offset.span.upper).getD (d.startIndex + k))
      (es.flatMap ExportInfoNodeEdge.translations) := by
  induction n generalizing k es with
  | zero =>
    cases h
    exact shown_nil.mpr rfl
  | succ n ih =>
    rw [readEdges, bind_eq_ok] at h
    obtain ⟨name, hname, h⟩ := h
    rw [bind_eq_ok] at h
    obtain ⟨offset, hoffset, h⟩ := h
    rw [bind_eq_ok] at h
    obtain ⟨rest, hrest, h⟩ := h
    cases h
    have hupper : offset.span.upper =
        d.startIndex + (k + name.value.byteCount + offset.value.byteCount) := by
      rw [(readULEB128_span hoffset).1, Span.of_upper, Nat.add_assoc]
    have hlast : ((ExportInfoNodeEdge.mk name offset :: rest).getLast?.map
          fun e => e.offset.span.upper).getD (d.startIndex + k) =
        (rest.getLast?.map fun e => e.offset.span.upper).getD
          (d.startIndex + (k + name.value.byteCount + offset.value.byteCount)) := by
      rw [List.getLast?_cons]
      cases rest.getLast? with
      | none => exact hupper
      | some e => rfl
    rw [hlast, List.flatMap_cons]
    exact shown_string hname (shown_leb hoffset rfl rfl (ih hrest))

/-- The lines of a node, in the order of its fields. -/
theorem translations_eq (start : Nat) (name : String) (size count : Field LEB128)
    (payload : Option ExportPayload) (edges : List ExportInfoNodeEdge) :
    ExportInfoNode.translations ⟨start, name, size, payload.map ExportPayload.flags,
        payload.map ExportPayload.leb128Array, payload.bind ExportPayload.reExportedSymbolName, count,
        edges⟩ =
      (lebLine size "Terminal Size" (decimal size.value.rawValue.toNat)).extra
          (some "Trie Node Name Prefix") (some name) ::
        ((payload.map ExportPayload.translations).getD [] ++
          lebLine count "Number of Edges" (decimal count.value.rawValue.toNat) ::
            edges.flatMap ExportInfoNodeEdge.translations) := by
  cases payload with
  | none => rfl
  | some p =>
    unfold ExportInfoNode.translations ExportPayload.translations
    simp only [Option.map_some, Option.getD_some, Option.bind_some, List.append_assoc,
      List.cons_append, List.nil_append]
    rfl

/-- **The fields of a node lie one behind the other from its offset on.** -/
theorem readNode_shown {d : Data} {offset : UInt64} {name : String} {n : ExportInfoNode}
    (h : readNode d offset name = .ok n) :
    Shown n.startOffsetInMacho n.endOffsetInMacho n.translations := by
  obtain ⟨-, size, payload, count, edges, endOffset, hsize, hpayload, hend, hcount, hedges, rfl⟩ :=
    readNode_eq_ok.mp h
  have hupper : count.span.upper = d.startIndex + (endOffset + count.value.byteCount) := by
    rw [(readULEB128_span hcount).1, Span.of_upper, Nat.add_assoc]
  have hedges := readEdges_shown hedges
  -- the part after the payload, then the payload, if there is one
  have hrest : Shown (d.startIndex + endOffset) _
      (lebLine count "Number of Edges" (decimal count.value.rawValue.toNat) ::
        edges.flatMap ExportInfoNodeEdge.translations) := shown_leb hcount rfl rfl hedges
  rw [← hupper] at hrest
  rw [translations_eq]
  refine shown_leb hsize rfl rfl ?_
  rcases readTerminal_eq_ok.mp hpayload with ⟨-, rfl⟩ | ⟨-, p, hp, rfl⟩
  · subst hend
    exact hrest
  · subst hend
    exact (readPayload_shown hp).append hrest

/-- A node has a first byte. -/
theorem readNode_start_lt_end {d : Data} {offset : UInt64} {name : String} {n : ExportInfoNode}
    (h : readNode d offset name = .ok n) : n.startOffsetInMacho < n.endOffsetInMacho := by
  have hshown := readNode_shown h
  obtain ⟨-, size, payload, count, edges, endOffset, hsize, -, -, -, -, rfl⟩ := readNode_eq_ok.mp h
  rw [translations_eq] at hshown
  have hrest := hshown.2.tiles.le
  have hpos := (readULEB128_span hsize).2
  exact Nat.lt_of_lt_of_le (Nat.lt_add_of_pos_right hpos) hrest

/-! ## No read recurses -/

theorem byteAt_ne_stackOverflow (d : Data) (i : Nat) : d.byteAt i ≠ .error .stackOverflow := by
  unfold Data.byteAt
  split
  · split <;> nofun
  · nofun

theorem guardElse_ne_stackOverflow (c : Bool) : guardElse c ≠ .error .stackOverflow := by
  cases c <;> nofun

theorem guardLet_ne_stackOverflow {α : Type} (o : Option α) : guardLet o ≠ .error .stackOverflow := by
  cases o <;> nofun

theorem subSequence_ne_stackOverflow (d : Data) (start count : Nat) :
    d.subSequence start count ≠ .error .stackOverflow := by
  refine bind_ne_error (guardElse_ne_stackOverflow _) fun _ => ?_
  refine bind_ne_error (guardElse_ne_stackOverflow _) fun _ => ?_
  unfold Data.slice
  split <;> nofun

theorem readULEB128_ne_stackOverflow (d : Data) (k : Nat) :
    readULEB128 d k ≠ .error .stackOverflow := by
  refine bind_ne_error (bind_ne_error (Loop.run_ne_error (fun s => ?_) _) fun _ => nofun) fun _ => nofun
  refine bind_ne_error (byteAt_ne_stackOverflow d _) fun b => ?_
  split <;> nofun

theorem readUTF8String_ne_stackOverflow (d : Data) (k : Nat) (z : Bool) :
    readUTF8String d k z ≠ .error .stackOverflow := by
  refine bind_ne_error (bind_ne_error (Loop.run_ne_error (fun s => ?_) _) fun _ => nofun) fun e => ?_
  · exact bind_ne_error (byteAt_ne_stackOverflow d _) fun b => nofun
  · exact bind_ne_error (subSequence_ne_stackOverflow d _ _) fun w =>
      bind_ne_error (guardLet_ne_stackOverflow _) fun s => nofun

theorem readPayload_ne_stackOverflow (d : Data) (k : Nat) :
    readPayload d k ≠ .error .stackOverflow := by
  refine bind_ne_error (readULEB128_ne_stackOverflow d _) fun leb => ?_
  refine bind_ne_error (bind_ne_error (guardLet_ne_stackOverflow _) fun _ => nofun) fun flags => ?_
  refine bind_ne_error (readULEB128_ne_stackOverflow d _) fun first => ?_
  split
  · exact bind_ne_error (readUTF8String_ne_stackOverflow d _ _) fun name => nofun
  · split
    · exact bind_ne_error (readULEB128_ne_stackOverflow d _) fun resolver => nofun
    · nofun

theorem readEdges_ne_stackOverflow (d : Data) (n k : Nat) :
    readEdges d n k ≠ .error .stackOverflow := by
  induction n generalizing k with
  | zero => nofun
  | succ n ih =>
    refine bind_ne_error (readUTF8String_ne_stackOverflow d _ _) fun name => ?_
    refine bind_ne_error (readULEB128_ne_stackOverflow d _) fun offset => ?_
    exact bind_ne_error (ih _) fun rest => nofun

theorem readNode_ne_stackOverflow (d : Data) (offset : UInt64) (name : String) :
    readNode d offset name ≠ .error .stackOverflow := by
  unfold readNode
  by_cases hlarge : 2 ^ 63 ≤ offset.toNat
  · rw [if_pos hlarge]
    nofun
  · rw [if_neg hlarge]
    refine bind_ne_error (readULEB128_ne_stackOverflow d _) fun size => ?_
    refine bind_ne_error ?_ fun payload => ?_
    · unfold readTerminal
      split
      · exact bind_ne_error (readPayload_ne_stackOverflow d _) fun p => nofun
      · nofun
    · refine bind_ne_error (readULEB128_ne_stackOverflow d _) fun count => ?_
      exact bind_ne_error (readEdges_ne_stackOverflow d _ _) fun edges => nofun

end Mocha
