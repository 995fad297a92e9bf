import Mocha.Components.ExportWalk

/-!
# Encoded export tries

A trie as a linker writes it: a node is its terminal size, the symbol exported there if there is one,
the number of its edges, and for each edge a NUL-terminated label and the offset of the child. Nodes
may be placed anywhere, a number may be written with any number of bytes.

* **`readNode_encoded`**: an encoded node reads back.
* **`initExportInfo_decodes`**: so does a whole trie, whatever the places of its nodes are, as long as
  they do not overlap.
-/

namespace Mocha

open Lib Data

/-! ## Numbers and labels -/

/-- A number written in LEB128. -/
structure Leb where
  value : UInt64
  bytes : List UInt8
  isLeb : IsLeb bytes
  lebNat_eq : lebNat bytes = value.toNat
  /-- the reader counts the bits in a `UInt32` -/
  length_lt : 7 * bytes.length < 2 ^ 32

/-- What the reader makes of it. -/
def Leb.decoded (x : Leb) : LEB128 := ⟨x.value, false, x.bytes.length⟩

theorem Leb.read {d : Data} {k : Nat} {x : Leb} (h : d.Holds k x.bytes) :
    readULEB128 d k = .ok ⟨x.decoded, Span.of (d.startIndex + k) x.bytes.length⟩ := by
  refine readULEB128_eq_ok.mpr ⟨x.bytes, h, x.isLeb, x.length_lt, ?_⟩
  unfold ulebField Leb.decoded
  rw [x.lebNat_eq, UInt64.ofNat_toNat]

/-- A string without NUL. -/
structure Label where
  text : String
  noNul : '\x00' ∉ text.toList

/-- Its UTF-8 bytes and a NUL. -/
def Label.bytes (l : Label) : List UInt8 := utf8 l.text ++ [0]

theorem isCString_append_zero {bs : List UInt8} (h : (0 : UInt8) ∉ bs) : IsCString (bs ++ [0]) := by
  induction bs with
  | nil => exact .last rfl
  | cons b bs ih =>
    rw [List.mem_cons, not_or] at h
    refine .more ?_ (ih h.2)
    unfold nulStop
    rw [beq_eq_false_iff_ne]
    exact fun hb => h.1 hb.symm

theorem Label.utf8_nul (l : Label) : utf8 (l.text ++ nuls 1) = l.bytes := by
  rw [utf8_append, utf8_nuls]
  rfl

theorem Label.read {d : Data} {k : Nat} {l : Label} (h : d.Holds k l.bytes) (z : Bool) :
    readUTF8String d k z =
      .ok ⟨⟨if z then Mocha.spaceRemoved (l.text ++ nuls 1) else l.text ++ nuls 1, l.bytes.length⟩,
        Span.of (d.startIndex + k) l.bytes.length⟩ := by
  refine readUTF8String_eq_ok.mpr ⟨l.text ++ nuls 1, ?_, ?_, ?_⟩
  · rw [l.utf8_nul]
    exact h
  · rw [l.utf8_nul]
    exact isCString_append_zero (zero_not_mem_utf8 l.noNul)
  · rw [l.utf8_nul]

/-! ## Symbols -/

/-- Where an exported symbol is found. -/
inductive SymbolPlace where
  | image (offset : Leb)
  | reExport (ordinal : Leb) (name : Label)
  | stub (offset resolver : Leb)

/-- The numbers of the place. -/
def SymbolPlace.lebs : SymbolPlace → List Leb
  | .image offset => [offset]
  | .reExport ordinal _ => [ordinal]
  | .stub offset resolver => [offset, resolver]

/-- The name under which another library exports the symbol. -/
def SymbolPlace.name : SymbolPlace → Option Label
  | .reExport _ name => some name
  | _ => none

def SymbolPlace.bytes : SymbolPlace → List UInt8
  | .image offset => offset.bytes
  | .reExport ordinal name => ordinal.bytes ++ name.bytes
  | .stub offset resolver => offset.bytes ++ resolver.bytes

/-- The flags announce the place: bit 3 a re-export, bit 4 a stub. -/
def SymbolPlace.Flagged (flags : UInt64) : SymbolPlace → Prop
  | .image _ => flags &&& 0x08 = 0 ∧ flags &&& 0x10 = 0
  | .reExport _ _ => flags &&& 0x08 ≠ 0
  | .stub _ _ => flags &&& 0x08 = 0 ∧ flags &&& 0x10 ≠ 0

/-- The two low bits of the flags. -/
def ExportKind.bits : ExportKind → UInt64
  | .regular => 0x00
  | .threadLocal => 0x01
  | .absolute => 0x02

/-- An exported symbol. -/
structure ExportSymbol where
  flags : Leb
  kind : ExportKind
  place : SymbolPlace
  kind_eq : flags.value &&& 0x03 = kind.bits
  flagged : place.Flagged flags.value

/-- The payload of a terminal node. -/
def ExportSymbol.bytes (s : ExportSymbol) : List UInt8 := s.flags.bytes ++ s.place.bytes

/-- What `ExportSymbolFlag.init` makes of the flags. -/
def ExportSymbol.flag (s : ExportSymbol) : ExportSymbolFlag :=
  ⟨s.kind, s.flags.value &&& 0x08 != 0, s.flags.value &&& 0x04 != 0, s.flags.value &&& 0x10 != 0,
    s.flags.bytes.length⟩

theorem ExportSymbol.init_flag (s : ExportSymbol) :
    ExportSymbolFlag.init s.flags.decoded = .ok s.flag := by
  unfold ExportSymbolFlag.init Leb.decoded ExportSymbol.flag
  simp only
  rw [s.kind_eq]
  cases s.kind <;> rfl

/-- **A symbol's payload reads back.** -/
theorem ExportSymbol.read {d : Data} {k : Nat} {s : ExportSymbol} (h : d.Holds k s.bytes) :
    ∃ p, readPayload d k = .ok p ∧ p.flags.value = s.flag ∧
      p.leb128Array.map Field.value = s.place.lebs.map Leb.decoded ∧
      p.reExportedSymbolName.map (fun f => utf8 f.value.rawValue) = s.place.name.map Label.bytes ∧
      p.endOffset = k + s.bytes.length := by
  obtain ⟨hflags, hplace⟩ := holds_append.mp h
  have hinit := s.init_flag
  have hflagged := s.flagged
  have hlength : k + s.bytes.length = k + s.flags.bytes.length + s.place.bytes.length := by
    rw [ExportSymbol.bytes, List.length_append, Nat.add_assoc]
  rw [hlength]
  unfold SymbolPlace.bytes at hplace ⊢
  cases hcase : s.place with
  | image offset =>
    rw [hcase] at hplace hflagged
    have hreExport : s.flag.isReExport = false := by simp [ExportSymbol.flag, hflagged.1]
    have hstub : s.flag.isStubAndResolver = false := by simp [ExportSymbol.flag, hflagged.2]
    exact ⟨_, readPayload_eq_ok.mpr ⟨_, _, _, Leb.read hflags, hinit, Leb.read hplace,
      .inr (.inr ⟨hreExport, hstub, rfl⟩)⟩, rfl, rfl, rfl, rfl⟩
  | reExport ordinal name =>
    rw [hcase] at hplace hflagged
    obtain ⟨hordinal, hname⟩ := holds_append.mp hplace
    have hset : s.flags.value &&& 0x08 ≠ 0 := hflagged
    have hreExport : s.flag.isReExport = true := by simpa [ExportSymbol.flag] using hset
    refine ⟨_, readPayload_eq_ok.mpr ⟨_, _, _, Leb.read hflags, hinit, Leb.read hordinal,
      .inl ⟨hreExport, _, Label.read hname false, rfl⟩⟩, rfl, rfl, congrArg some name.utf8_nul, ?_⟩
    rw [List.length_append]
    exact Nat.add_assoc _ _ _
  | stub offset resolver =>
    rw [hcase] at hplace hflagged
    obtain ⟨hoffset, hresolver⟩ := holds_append.mp hplace
    have hreExport : s.flag.isReExport = false := by simp [ExportSymbol.flag, hflagged.1]
    have hstub : s.flag.isStubAndResolver = true := by simpa [ExportSymbol.flag] using hflagged.2
    refine ⟨_, readPayload_eq_ok.mpr ⟨_, _, _, Leb.read hflags, hinit, Leb.read hoffset,
      .inr (.inl ⟨hreExport, hstub, _, Leb.read hresolver, rfl⟩)⟩, rfl, rfl, rfl, ?_⟩
    rw [List.length_append]
    exact Nat.add_assoc _ _ _

/-! ## Nodes -/

/-- An edge: its label and the offset of the node it leads to. -/
structure TrieEdge where
  label : Label
  link : Leb

def TrieEdge.bytes (e : TrieEdge) : List UInt8 := e.label.bytes ++ e.link.bytes

/-- A node and the offset it is placed at. -/
structure TrieNode where
  offset : Nat
  terminalSize : Leb
  symbol : Option ExportSymbol
  edges : List TrieEdge

/-- The payload; none for a node without a symbol. -/
def TrieNode.payload (x : TrieNode) : List UInt8 := (x.symbol.map ExportSymbol.bytes).getD []

def TrieNode.bytes (x : TrieNode) : List UInt8 :=
  x.terminalSize.bytes ++ (x.payload ++ (UInt8.ofNat x.edges.length :: x.edges.flatMap TrieEdge.bytes))

/-- The terminal size is the length of the payload, and the number of edges fits seven bits. -/
structure TrieNode.WellFormed (x : TrieNode) : Prop where
  terminalSize_eq : x.terminalSize.value.toNat = x.payload.length
  edges_lt : x.edges.length < 128

instance (x : TrieNode) : Decidable x.WellFormed :=
  decidable_of_iff (x.terminalSize.value.toNat = x.payload.length ∧ x.edges.length < 128)
    ⟨fun h => ⟨h.1, h.2⟩, fun h => ⟨h.terminalSize_eq, h.edges_lt⟩⟩

/-- `n` is what `x` was decoded to. -/
structure NodeDecoded (d : Data) (x : TrieNode) (n : ExportInfoNode) : Prop where
  start : n.startOffsetInMacho = d.startIndex + x.offset
  terminalSize : n.terminalSize.value = x.terminalSize.decoded
  flags : n.flags.map Field.value = x.symbol.map ExportSymbol.flag
  lebs : n.leb128Array.map (List.map Field.value) =
    x.symbol.map fun s => s.place.lebs.map Leb.decoded
  name : n.reExportedSymbolName.map (fun f => utf8 f.value.rawValue) =
    x.symbol.bind fun s => s.place.name.map Label.bytes
  edgesCount : n.edgesCount.value.rawValue.toNat = x.edges.length
  edges : n.edges.map (fun e => (e.edgeName.value.byteCount, e.offset.value)) =
    x.edges.map fun e => (e.label.bytes.length, e.link.decoded)

/-- The label as it goes into the names. -/
def Label.shown (l : Label) : String := Mocha.spaceRemoved (l.text ++ nuls 1)

/-- An edge and what it is read as. -/
def EdgeDecoded (e : TrieEdge) (f : ExportInfoNodeEdge) : Prop :=
  f.edgeName.value = ⟨e.label.shown, e.label.bytes.length⟩ ∧ f.offset.value = e.link.decoded

theorem map_edges_decoded {es : List TrieEdge} {fs : List ExportInfoNodeEdge}
    (h : List.Forall₂ EdgeDecoded es fs) :
    fs.map (fun f => (f.edgeName.value.byteCount, f.offset.value)) =
      es.map fun e => (e.label.bytes.length, e.link.decoded) := by
  induction h with
  | nil => rfl
  | cons he _ ih => rw [List.map_cons, List.map_cons, ih, he.1, he.2]

theorem readEdges_encoded {d : Data} {es : List TrieEdge} {k : Nat}
    (h : d.Holds k (es.flatMap TrieEdge.bytes)) :
    ∃ edges, readEdges d es.length k = .ok edges ∧
      List.Forall₂ EdgeDecoded es edges := by
  induction es generalizing k with
  | nil => exact ⟨[], rfl, .nil⟩
  | cons e es ih =>
    rw [List.flatMap_cons] at h
    obtain ⟨he, hes⟩ := holds_append.mp h
    obtain ⟨hlabel, hlink⟩ := holds_append.mp he
    rw [TrieEdge.bytes, List.length_append, ← Nat.add_assoc] at hes
    obtain ⟨edges, hedges, hall⟩ := ih hes
    rw [List.length_cons, readEdges, Label.read hlabel, ok_bind]
    change ∃ edges, (readULEB128 d (k + e.label.bytes.length) >>= _) = _ ∧ _
    rw [Leb.read hlink, ok_bind]
    change ∃ edges,
      (readEdges d es.length (k + e.label.bytes.length + e.link.bytes.length) >>= _) = _ ∧ _
    rw [hedges, ok_bind]
    exact ⟨_, rfl, .cons ⟨rfl, rfl⟩ hall⟩

theorem lebNat_byte {n : Nat} (h : n < 128) : lebNat [UInt8.ofNat n] = n := by
  have hbyte : (UInt8.ofNat n).toNat = n := by
    rw [UInt8.toNat_ofNat', Nat.mod_eq_of_lt (by omega)]
  rw [lebNat, hbyte, lebNat, Nat.mod_eq_of_lt h, Nat.mul_zero, Nat.add_zero]

/-- A number below 128 in its one byte. -/
def Leb.byte (n : Nat) (h : n < 128) : Leb where
  value := UInt64.ofNat n
  bytes := [UInt8.ofNat n]
  isLeb := by
    refine .last (decide_eq_true (UInt8.lt_iff_toNat_lt.mpr ?_))
    rw [UInt8.toNat_ofNat', Nat.mod_eq_of_lt (by omega)]
    exact h
  lebNat_eq := by
    rw [lebNat_byte h, UInt64.toNat_ofNat', Nat.mod_eq_of_lt (by omega)]
  length_lt := by simp

theorem zero_lt_lebEnd : 0 < 128 := by decide

theorem six_lt_lebEnd : 6 < 128 := by decide

theorem Leb.byte_toNat {n : Nat} (h : n < 128) : (Leb.byte n h).value.toNat = n := by
  change (UInt64.ofNat n).toNat = n
  rw [UInt64.toNat_ofNat', Nat.mod_eq_of_lt (by omega)]

/-- The payload of an encoded node. -/
theorem readTerminal_encoded {d : Data} {k : Nat} {x : TrieNode} {size : Field LEB128}
    (hlength : x.terminalSize.value.toNat = x.payload.length)
    (hsize : size.value.rawValue = x.terminalSize.value) (h : d.Holds k x.payload) :
    ∃ payload, readTerminal d size k = .ok payload ∧
      (payload.map ExportPayload.endOffset).getD k = k + x.payload.length ∧
      (payload.map ExportPayload.flags).map Field.value = x.symbol.map ExportSymbol.flag ∧
      (payload.map ExportPayload.leb128Array).map (List.map Field.value) =
        x.symbol.map (fun s => s.place.lebs.map Leb.decoded) ∧
      (payload.bind ExportPayload.reExportedSymbolName).map (fun f => utf8 f.value.rawValue) =
        x.symbol.bind fun s => s.place.name.map Label.bytes := by
  unfold TrieNode.payload at h hlength ⊢
  cases hsymbol : x.symbol with
  | none =>
    rw [hsymbol] at hlength
    have hzero : size.value.rawValue = 0 := by
      rw [hsize]
      exact UInt64.toNat_inj.mp hlength
    exact ⟨none, readTerminal_eq_ok.mpr (.inl ⟨hzero, rfl⟩), rfl, rfl, rfl, rfl⟩
  | some s =>
    rw [hsymbol] at hlength h
    obtain ⟨p, hp, hflag, hlebs, hname, hend⟩ := ExportSymbol.read h
    have hpos : 0 < s.bytes.length := by
      rw [ExportSymbol.bytes, List.length_append]
      have := s.flags.isLeb.length_pos
      omega
    have hne : size.value.rawValue ≠ 0 := by
      rw [hsize]
      intro hzero
      rw [hzero] at hlength
      exact absurd hlength (Nat.ne_of_lt hpos)
    exact ⟨some p, readTerminal_eq_ok.mpr (.inr ⟨hne, p, hp, rfl⟩), hend, congrArg some hflag,
      congrArg some hlebs, hname⟩

/-- **An encoded node reads back.** -/
theorem readNode_encoded {d : Data} {x : TrieNode} {offset : UInt64} (hx : x.WellFormed)
    (hoffset : offset.toNat = x.offset) (hlt : x.offset < 2 ^ 63) (h : d.Holds x.offset x.bytes)
    (name : String) :
    ∃ n, readNode d offset name = .ok n ∧ n.accumulatedString = name ∧ NodeDecoded d x n ∧
      List.Forall₂ EdgeDecoded x.edges n.edges := by
  rw [← hoffset] at hlt h
  obtain ⟨hsize, h⟩ := holds_append.mp h
  obtain ⟨hpayload, h⟩ := holds_append.mp h
  rw [← List.singleton_append] at h
  obtain ⟨hcount, hedges⟩ := holds_append.mp h
  have hcount : d.Holds _ (Leb.byte x.edges.length hx.edges_lt).bytes := hcount
  have hsize := Leb.read hsize
  have hcount := Leb.read hcount
  obtain ⟨payload, hterminal, hend, hflags, hlebs, hname⟩ :=
    @readTerminal_encoded d _ x ⟨x.terminalSize.decoded, _⟩ hx.terminalSize_eq rfl hpayload
  obtain ⟨edges, hread, hall⟩ := readEdges_encoded hedges
  have hnumber := Leb.byte_toNat hx.edges_lt
  refine ⟨_, readNode_eq_ok.mpr ⟨hlt, _, payload, _, edges, _, hsize, hterminal, hend, hcount, ?_, rfl⟩,
    rfl, ⟨?_, rfl, hflags, hlebs, hname, hnumber, ?_⟩, hall⟩
  · change readEdges d (Leb.byte _ hx.edges_lt).value.toNat _ = _
    rw [hnumber]
    exact hread
  · rw [hoffset]
  · exact map_edges_decoded hall

/-! ## Tries -/

mutual

/-- A trie: a node and the tries its edges lead to. -/
inductive ExportTrie where
  | node (offset : Nat) (terminalSize : Leb) (symbol : Option ExportSymbol) (edges : ExportEdges)

/-- The edges of a node. -/
inductive ExportEdges where
  | nil
  | cons (label : Label) (link : Leb) (child : ExportTrie) (rest : ExportEdges)

end

def ExportEdges.list : ExportEdges → List TrieEdge
  | .nil => []
  | .cons label link _ rest => ⟨label, link⟩ :: rest.list

/-- The root of a trie. -/
def ExportTrie.top : ExportTrie → TrieNode
  | .node offset terminalSize symbol edges => ⟨offset, terminalSize, symbol, edges.list⟩

mutual

/-- The nodes, each before what is below it. -/
def ExportTrie.nodes : ExportTrie → List TrieNode
  | .node offset terminalSize symbol edges => ⟨offset, terminalSize, symbol, edges.list⟩ :: edges.nodes

def ExportEdges.nodes : ExportEdges → List TrieNode
  | .nil => []
  | .cons _ _ child rest => child.nodes ++ rest.nodes

end

mutual

/-- The links are the offsets of the children. -/
def ExportTrie.Linked : ExportTrie → Prop
  | .node _ _ _ edges => edges.Linked

def ExportEdges.Linked : ExportEdges → Prop
  | .nil => True
  | .cons _ link child rest => link.value.toNat = child.top.offset ∧ child.Linked ∧ rest.Linked

end

mutual

/-- The names of the nodes, in the order of `nodes`: what `f` makes of the labels along the path. -/
def ExportTrie.names (f : Label → String) : String → ExportTrie → List String
  | name, .node _ _ _ edges => name :: edges.names f name

def ExportEdges.names (f : Label → String) : String → ExportEdges → List String
  | _, .nil => []
  | name, .cons label _ child rest => child.names f (name ++ f label) ++ rest.names f name

end

/-- The nodes of a trie are written at their places in `d`. -/
structure WrittenIn (d : Data) (nodes : List TrieNode) : Prop where
  wellFormed : ∀ x ∈ nodes, x.WellFormed
  holds : ∀ x ∈ nodes, d.Holds x.offset x.bytes

theorem WrittenIn.mono {d : Data} {xs ys : List TrieNode} (h : WrittenIn d ys) (hsub : xs ⊆ ys) :
    WrittenIn d xs :=
  ⟨fun x hx => h.wellFormed x (hsub hx), fun x hx => h.holds x (hsub hx)⟩

theorem ExportTrie.top_mem_nodes : ∀ t : ExportTrie, t.top ∈ t.nodes
  | .node _ _ _ _ => List.mem_cons_self

/-- A trie encoded in `d`, its root first. -/
structure ExportTrie.Encoded (t : ExportTrie) (d : Data) : Prop where
  root : t.top.offset = 0
  linked : t.Linked
  written : WrittenIn d t.nodes

mutual

/-- The walk of an encoded trie. -/
theorem ExportTrie.walk {d : Data} (hd : d.count < 2 ^ 63) : ∀ (t : ExportTrie) {n : ExportInfoNode},
    t.Linked → WrittenIn d t.nodes → NodeDecoded d t.top n →
      List.Forall₂ EdgeDecoded t.top.edges n.edges →
      ∃ bound ns, (∀ stack, bound ≤ stack → allNodes d stack n = .ok ns) ∧
        List.Forall₂ (NodeDecoded d) t.nodes ns ∧
        ns.map ExportInfoNode.accumulatedString = t.names Label.shown n.accumulatedString
  | .node offset terminalSize symbol edges, n, hlinked, hwritten, htop, hedges => by
    obtain ⟨bound, kids, nss, hkids, hbelow, hdecoded, hnames⟩ :=
      edges.walk hd hlinked (hwritten.mono (List.subset_cons_self _ _)) hedges
    refine ⟨bound + 1, n :: nss.flatten, ?_, .cons htop hdecoded, ?_⟩
    · intro stack hle
      obtain ⟨stack, rfl⟩ : ∃ m, stack = m + 1 := ⟨stack - 1, by omega⟩
      rw [allNodes, hkids, ok_bind, hbelow stack (by omega)]
      rfl
    · rw [List.map_cons, hnames, ExportTrie.names]

theorem ExportEdges.walk {d : Data} (hd : d.count < 2 ^ 63) : ∀ (es : ExportEdges)
    {n : ExportInfoNode} {fs : List ExportInfoNodeEdge},
    es.Linked → WrittenIn d es.nodes → List.Forall₂ EdgeDecoded es.list fs →
      ∃ bound kids nss, (fs.mapM fun f => generateNode d (some (f, n))) = .ok kids ∧
        (∀ stack, bound ≤ stack → kids.mapM (allNodes d stack) = .ok nss) ∧
        List.Forall₂ (NodeDecoded d) es.nodes nss.flatten ∧
        nss.flatten.map ExportInfoNode.accumulatedString = es.names Label.shown n.accumulatedString
  | .nil, n, fs, _, _, hfs => by
    cases hfs
    exact ⟨0, [], [], rfl, fun _ _ => rfl, .nil, rfl⟩
  | .cons label link child rest, n, fs, hlinked, hwritten, hfs => by
    obtain ⟨f, fs, hf, hfs', rfl⟩ := List.forall₂_cons_left_iff.mp hfs
    obtain ⟨hlink, hchild, hrest⟩ := hlinked
    have hwritten' : WrittenIn d child.nodes := hwritten.mono (List.subset_append_left _ _)
    have htop := hwritten'.holds child.top child.top_mem_nodes
    have hoffset : f.link.toNat = child.top.offset := by
      rw [← hlink, ExportInfoNodeEdge.link, hf.2]
      rfl
    have hlt : child.top.offset < 2 ^ 63 := by
      have hle := htop.1
      omega
    obtain ⟨m, hread, hname, hdecoded, hedges⟩ := readNode_encoded
      (hwritten'.wellFormed child.top child.top_mem_nodes) hoffset hlt htop
      (n.accumulatedString ++ label.shown)
    have hm : generateNode d (some (f, n)) = .ok m := by
      rw [generateNode_eq, nameOf]
      simp only [Option.map_some, Option.getD_some, hf.1]
      exact hread
    obtain ⟨bound, ns, hns, hall, hnames⟩ := child.walk hd hchild hwritten' hdecoded hedges
    obtain ⟨bound', kids, nss, hkids, hbelow, hall', hnames'⟩ := rest.walk (n := n) hd hrest
      (hwritten.mono (List.subset_append_right _ _)) hfs'
    refine ⟨max bound bound', m :: kids, ns :: nss, ?_, ?_, ?_, ?_⟩
    · rw [List.mapM_cons, hm, hkids]
      rfl
    · intro stack hle
      rw [List.mapM_cons, hns stack (by omega), hbelow stack (by omega)]
      rfl
    · rw [ExportEdges.nodes, List.flatten_cons]
      exact List.rel_append hall hall'
    · rw [List.flatten_cons, List.map_append, hnames, hnames', hname, ExportEdges.names]

end

/-! ## The decoded nodes -/

/-- Two nodes do not overlap. -/
def TrieNode.Apart (x y : TrieNode) : Prop :=
  x.offset + x.bytes.length ≤ y.offset ∨ y.offset + y.bytes.length ≤ x.offset

instance : DecidableRel TrieNode.Apart := fun _ _ => inferInstanceAs (Decidable (_ ∨ _))

theorem TrieNode.bytes_length_pos (x : TrieNode) : 0 < x.bytes.length := by
  have hpos := x.terminalSize.isLeb.length_pos
  rw [TrieNode.bytes, List.length_append]
  omega

/-- The root of an encoded trie, and what `allNodes` makes of the trie. -/
theorem ExportTrie.Encoded.allNodes {t : ExportTrie} {d : Data} (h : t.Encoded d)
    (hd : d.count < 2 ^ 63) :
    ∃ root bound ns, generateNode d none = .ok root ∧
      (∀ stack, bound ≤ stack → Mocha.allNodes d stack root = .ok ns) ∧
      List.Forall₂ (NodeDecoded d) t.nodes ns ∧
      ns.map ExportInfoNode.accumulatedString = t.names Label.shown "" := by
  have hmem := t.top_mem_nodes
  have hzero : (0 : UInt64).toNat = t.top.offset := h.root.symm
  obtain ⟨root, hread, hname, hdecoded, hedges⟩ := readNode_encoded (h.written.wellFormed _ hmem) hzero
    (by rw [h.root]; decide) (h.written.holds _ hmem) ""
  obtain ⟨bound, ns, hns, hall, hnames⟩ := t.walk hd h.linked h.written hdecoded hedges
  rw [hname] at hnames
  exact ⟨root, bound, ns, hread ▸ generateNode_eq d none, hns, hall, hnames⟩

/-- **Decoding undoes encoding.** The component holds one node for each node of the trie, in the
order of their offsets. -/
theorem initExportInfo_decodes {t : ExportTrie} {d : Data} (hd : d.count < 2 ^ 63)
    (h : t.Encoded d) (hapart : t.nodes.Pairwise TrieNode.Apart) :
    ∃ bound nodes, (∀ stack, bound ≤ stack → initExportInfo stack d = .ok nodes) ∧
      nodes.Pairwise (fun a b => a.startOffsetInMacho < b.startOffsetInMacho) ∧
      ∃ ns, nodes.Perm ns ∧ List.Forall₂ (NodeDecoded d) t.nodes ns := by
  obtain ⟨root, bound, ns, hroot, hns, hall, -⟩ := h.allNodes hd
  have hstarts : ns.map ExportInfoNode.startOffsetInMacho =
      t.nodes.map fun x => d.startIndex + x.offset := by
    clear hns hapart
    generalize t.nodes = xs at hall
    induction hall with
    | nil => rfl
    | cons hx _ ih => rw [List.map_cons, List.map_cons, hx.start, ih]
  have hne : (ns.map ExportInfoNode.startOffsetInMacho).Nodup := by
    rw [hstarts, List.Nodup, List.pairwise_map]
    refine hapart.imp ?_
    intro x y hxy
    have hx := x.bytes_length_pos
    have hy := y.bytes_length_pos
    rcases hxy with hxy | hxy <;> omega
  have hperm := ns.mergeSort_perm fun a b => decide (a.startOffsetInMacho ≤ b.startOffsetInMacho)
  refine ⟨bound, _, ?_, ?_, ns, hperm, hall⟩
  · intro stack hle
    unfold initExportInfo
    rw [hroot, ok_bind, hns stack hle]
    rfl
  · have hne := (hperm.map _).nodup_iff.mpr hne
    rw [List.Nodup, List.pairwise_map] at hne
    exact (sorted_startOffsetInMacho ns).imp₂ (fun _ _ hle hne => Nat.lt_of_le_of_ne hle hne) hne

/-- A regular symbol at 16. -/
def sampleSymbol : ExportSymbol where
  flags := Leb.byte 0 (by decide)
  kind := .regular
  place := .image (Leb.byte 16 (by decide))
  kind_eq := rfl
  flagged := ⟨rfl, rfl⟩

/-- A root without a symbol and, behind a gap, the node of the symbol `a`. -/
def sampleTrie : ExportTrie :=
  .node 0 (Leb.byte 0 (by decide)) none
    (.cons ⟨"a", by decide⟩ (Leb.byte 6 (by decide))
      (.node 6 (Leb.byte 2 (by decide)) (some sampleSymbol) .nil) .nil)

/-- `sampleTrie` in bytes. -/
def sampleTrieData : Data := ⟨0, [0x00, 0x01, 0x61, 0x00, 0x06, 0xff, 0x02, 0x00, 0x10, 0x00]⟩

theorem sampleTrie_encoded : sampleTrie.Encoded sampleTrieData :=
  ⟨rfl, ⟨rfl, trivial, trivial⟩, by decide +kernel, by decide +kernel⟩

theorem initExportInfo_decodes_sampleTrie :
    ∃ bound nodes, (∀ stack, bound ≤ stack → initExportInfo stack sampleTrieData = .ok nodes) ∧
      nodes.Pairwise (fun a b => a.startOffsetInMacho < b.startOffsetInMacho) ∧
      ∃ ns, nodes.Perm ns ∧ List.Forall₂ (NodeDecoded sampleTrieData) sampleTrie.nodes ns :=
  initExportInfo_decodes (by decide) sampleTrie_encoded (by decide +kernel)

end Mocha
