import Mocha.Components.ExportEncoding

/-!
# The names of exported symbols

The name of a node is put together from the labels along the path to it. Each label is read with
its NUL and `spaceRemoved` is applied to the two together: the NUL keeps the blanks at the end of the
label, and the blanks at its beginning are lost (`toList_shown`).

**`exportNames_exact_iff`**: all names are the concatenations of the labels iff no label begins with a
blank.
-/

namespace Mocha

open Lib Data

/-! ## One label -/

/-- What is left of a string whose NUL has been read with it. -/
theorem trim_append_nul (l : List Char) :
    trim isWhitespace (l ++ ['\x00']) = l.dropWhile isWhitespace ++ ['\x00'] := by
  have hfront : (l ++ ['\x00']).dropWhile isWhitespace = l.dropWhile isWhitespace ++ ['\x00'] := by
    rw [List.dropWhile_append]
    split
    · rename_i hempty
      rw [List.isEmpty_iff.mp hempty]
      rfl
    · rfl
  unfold trim
  rw [hfront, List.reverse_append, List.reverse_singleton, List.singleton_append]
  have hstop : ∀ l : List Char, ('\x00' :: l).dropWhile isWhitespace = '\x00' :: l := fun l => rfl
  rw [hstop, List.reverse_cons, List.reverse_reverse]

theorem Label.toList_shown (l : Label) : l.shown.toList = l.text.toList.dropWhile isWhitespace := by
  have hnoNul : '\x00' ∉ l.text.toList.dropWhile isWhitespace := by
    intro hmem
    exact l.noNul ((List.dropWhile_sublist _).subset hmem)
  unfold Label.shown spaceRemoved nuls
  rw [String.toList_append, String.toList_ofList, String.toList_ofList, List.replicate_one,
    trim_append_nul]
  exact filter_nul_padded hnoNul 1

/-- The label begins with a blank. -/
def Label.StartsBlank (l : Label) : Prop := ∃ c ∈ l.text.toList.head?, isWhitespace c = true

/-- **A label goes unchanged into the names** iff it does not begin with a blank. -/
theorem Label.shown_eq_iff (l : Label) : l.shown = l.text ↔ ¬ l.StartsBlank := by
  rw [← String.toList_inj, l.toList_shown]
  unfold Label.StartsBlank
  cases l.text.toList with
  | nil => simp
  | cons c cs =>
    rw [List.dropWhile_cons]
    by_cases hc : isWhitespace c = true
    · have hle := (List.dropWhile_sublist (l := cs) isWhitespace).length_le
      rw [if_pos hc]
      refine iff_of_false ?_ (by simp [hc])
      intro heq
      have hlength := congrArg List.length heq
      rw [List.length_cons] at hlength
      omega
    · rw [if_neg hc]
      exact iff_of_true rfl (by simpa using hc)

/-! ## All labels of a trie -/

mutual

/-- The labels of a trie. -/
def ExportTrie.labels : ExportTrie → List Label
  | .node _ _ _ edges => edges.labels

def ExportEdges.labels : ExportEdges → List Label
  | .nil => []
  | .cons label _ child rest => label :: (child.labels ++ rest.labels)

end

variable {f g : Label → String}

mutual

theorem ExportTrie.length_names : ∀ (t : ExportTrie) (name : String),
    (t.names f name).length = t.nodes.length
  | .node _ _ _ edges, name => by
    rw [ExportTrie.names, ExportTrie.nodes, List.length_cons, List.length_cons, edges.length_names]

theorem ExportEdges.length_names : ∀ (es : ExportEdges) (name : String),
    (es.names f name).length = es.nodes.length
  | .nil, _ => rfl
  | .cons label _ child rest, name => by
    rw [ExportEdges.names, ExportEdges.nodes, List.length_append, List.length_append,
      child.length_names, rest.length_names]

end

/-- The first name is that of the root. -/
theorem ExportTrie.head?_names (t : ExportTrie) (name : String) :
    (t.names f name).head? = some name := by
  cases t
  rfl

mutual

/-- Two ways to show the labels give the same names iff they agree on every label. -/
theorem ExportTrie.names_eq_iff : ∀ (t : ExportTrie) (name : String),
    t.names f name = t.names g name ↔ ∀ l ∈ t.labels, f l = g l
  | .node _ _ _ edges, name => by
    rw [ExportTrie.names, ExportTrie.names, ExportTrie.labels, List.cons_inj_right]
    exact edges.names_eq_iff name

theorem ExportEdges.names_eq_iff : ∀ (es : ExportEdges) (name : String),
    es.names f name = es.names g name ↔ ∀ l ∈ es.labels, f l = g l
  | .nil, _ => iff_of_true rfl nofun
  | .cons label _ child rest, name => by
    have hlength : (child.names f (name ++ f label)).length =
        (child.names g (name ++ g label)).length := by
      rw [child.length_names, child.length_names]
    rw [ExportEdges.names, ExportEdges.names, ExportEdges.labels]
    constructor
    · intro h l hl
      obtain ⟨hchild, hrest⟩ := List.append_inj h hlength
      -- the name of the child itself shows what became of the label
      have hhead := congrArg List.head? hchild
      rw [child.head?_names, child.head?_names, Option.some_inj, String.append_right_inj] at hhead
      rw [hhead] at hchild
      rcases List.mem_cons.mp hl with rfl | hl
      · exact hhead
      · rcases List.mem_append.mp hl with hl | hl
        · exact (child.names_eq_iff _).mp hchild l hl
        · exact (rest.names_eq_iff name).mp hrest l hl
    · intro h
      have hlabel := h label List.mem_cons_self
      have hchild := (child.names_eq_iff (name ++ g label)).mpr fun l hl =>
        h l (List.mem_cons_of_mem _ (List.mem_append_left _ hl))
      have hrest := (rest.names_eq_iff name).mpr fun l hl =>
        h l (List.mem_cons_of_mem _ (List.mem_append_right _ hl))
      rw [hlabel, hchild, hrest]

end

/-! ## The names of the decoded nodes -/

/-- The nodes are named after the labels along the path, so only equal paths give equal names. -/
structure ExactNames (t : ExportTrie) (ns : List ExportInfoNode) : Prop where
  names : ns.map ExportInfoNode.accumulatedString = t.names Label.text ""
  distinct : ∀ i j : Nat, ∀ n m, ns[i]? = some n → ns[j]? = some m →
    n.accumulatedString = m.accumulatedString →
    (t.names Label.text "")[i]? = (t.names Label.text "")[j]?

theorem exactNames_iff {t : ExportTrie} {ns : List ExportInfoNode} :
    ExactNames t ns ↔ ns.map ExportInfoNode.accumulatedString = t.names Label.text "" := by
  constructor
  · exact ExactNames.names
  · intro h
    refine ⟨h, ?_⟩
    intro i j n m hn hm heq
    rw [← h, List.getElem?_map, List.getElem?_map, hn, hm, Option.map_some, Option.map_some, heq]

/-- **The names of a decoded trie are exact** iff none of its labels begins with a blank. -/
theorem exportNames_exact_iff {t : ExportTrie} {d : Data} (hd : d.count < 2 ^ 63) (h : t.Encoded d) :
    ∃ root bound ns, generateNode d none = .ok root ∧
      (∀ stack, bound ≤ stack → allNodes d stack root = .ok ns) ∧
      (ExactNames t ns ↔ ∀ l ∈ t.labels, ¬ l.StartsBlank) := by
  obtain ⟨root, bound, ns, hroot, hns, -, hnames⟩ := h.allNodes hd
  refine ⟨root, bound, ns, hroot, hns, ?_⟩
  rw [exactNames_iff, hnames, t.names_eq_iff]
  exact forall₂_congr fun l _ => l.shown_eq_iff

theorem exportNames_exact_iff_sampleTrie :
    ∃ root bound ns, generateNode sampleTrieData none = .ok root ∧
      (∀ stack, bound ≤ stack → allNodes sampleTrieData stack root = .ok ns) ∧
      ExactNames sampleTrie ns := by
  obtain ⟨root, bound, ns, hroot, hns, hiff⟩ := exportNames_exact_iff (by decide) sampleTrie_encoded
  refine ⟨root, bound, ns, hroot, hns, hiff.mpr ?_⟩
  intro l hl
  rcases List.mem_singleton.mp hl with rfl
  rw [← Label.shown_eq_iff]
  decide +kernel

/-- A root whose edge has the label `" a"`. -/
def blankTrie : ExportTrie :=
  .node 0 (Leb.byte 0 zero_lt_lebEnd) none
    (.cons ⟨" a", by decide⟩ (Leb.byte 6 six_lt_lebEnd)
      (.node 6 (Leb.byte 0 zero_lt_lebEnd) none .nil) .nil)

/-- `blankTrie` in bytes. -/
def blankTrieData : Data := ⟨0, [0x00, 0x01, 0x20, 0x61, 0x00, 0x06, 0x00, 0x00]⟩

/-- The node at the path `" a"` gets the name `"a"`. -/
theorem blankTrie_renamed :
    blankTrie.Encoded blankTrieData ∧ blankTrie.names Label.text "" = ["", " a"] ∧
      ∃ root ns, generateNode blankTrieData none = .ok root ∧
        allNodes blankTrieData 2 root = .ok ns ∧
        ns.map ExportInfoNode.accumulatedString = ["", "a"] ∧ ¬ ExactNames blankTrie ns := by
  have hencoded : blankTrie.Encoded blankTrieData :=
    ⟨rfl, ⟨rfl, trivial, trivial⟩, by decide +kernel, by decide +kernel⟩
  have hpaths : blankTrie.names Label.text "" = ["", " a"] := by decide +kernel
  have hrun : (generateNode blankTrieData none >>= allNodes blankTrieData 2).map
      (fun ns => ns.map ExportInfoNode.accumulatedString) = .ok ["", "a"] := by decide +kernel
  refine ⟨hencoded, hpaths, ?_⟩
  cases hroot : generateNode blankTrieData none with
  | error e =>
    rw [hroot] at hrun
    cases hrun
  | ok root =>
    rw [hroot, ok_bind] at hrun
    cases hall : allNodes blankTrieData 2 root with
    | error e =>
      rw [hall] at hrun
      cases hrun
    | ok ns =>
      rw [hall, Except.map, Except.ok.injEq] at hrun
      refine ⟨root, ns, rfl, hall, hrun, ?_⟩
      rw [exactNames_iff, hrun, hpaths]
      decide

end Mocha
