import Mocha.Components.ExportNode
import Mocha.Lib.Descent

/-!
# Following the edges of an export trie

`allNodes` goes down from the root by the offsets in the file and keeps no record of where it has
been. What it does is decided by the offsets alone: `exportDescent` leads from the offset of a node to
those of its children, `nodeDescent` is the same with the nodes and their names, and `allNodes_agrees`
ties the two together.

* **`exportWalk_ends_iff`**: the walk reaches a result or a trap iff it never comes back to an offset
  that it is below.
* **`exportRanges_exact_iff`**: every node's lines highlight the node's own bytes iff no node is
  reached along two paths and the nodes follow each other without a gap.
-/

namespace Mocha

open Lib Data

/-- The offset of the node an edge leads to. -/
def ExportInfoNodeEdge.link (e : ExportInfoNodeEdge) : UInt64 := e.offset.value.rawValue

/-- The nodes below a node, as `allNodes` generates them. -/
def nodeDescent (d : Data) : Descent Trap ExportInfoNode where
  children n := n.edges.mapM fun e => generateNode d (some (e, n))

/-- The offsets of the nodes below the node at an offset; all of them must be readable. -/
def exportDescent (d : Data) : Descent Trap UInt64 where
  children offset := do
    let n ← readNode d offset ""
    let _ ← (n.edges.map ExportInfoNodeEdge.link).mapM fun o => readNode d o ""
    return n.edges.map ExportInfoNodeEdge.link

/-- `n` is the node at `offset`, under some name. -/
def NodeAt (d : Data) (n : ExportInfoNode) (offset : UInt64) : Prop :=
  ∃ name, readNode d offset name = .ok n

/-- `allNodes` is the walk, and going deeper than the stack ends it. -/
theorem allNodes_eq (d : Data) (stack : Nat) (n : ExportInfoNode) :
    allNodes d stack n = Descent.result .stackOverflow ((nodeDescent d).run stack n) := by
  induction stack generalizing n with
  | zero => rfl
  | succ stack ih =>
    have hbelow : allNodes d stack =
        fun t => Descent.result .stackOverflow ((nodeDescent d).run stack t) := by
      funext t
      exact ih t
    rw [Descent.result_run, allNodes, hbelow]
    rfl

theorem NodeAt.named {d : Data} {n : ExportInfoNode} {offset : UInt64} (h : NodeAt d n offset)
    (name : String) : NodeAt d (n.named name) offset := by
  obtain ⟨other, h⟩ := h
  refine ⟨name, ?_⟩
  rw [readNode_named other, h]
  rfl

/-- The node an edge leads to is read at its offset, and named after the edge and its parent. -/
theorem generateNode_edge (d : Data) (e : ExportInfoNodeEdge) (n : ExportInfoNode) (name : String) :
    generateNode d (some (e, n)) =
      (readNode d e.link name).map (·.named (n.accumulatedString ++ e.edgeName.value.rawValue)) := by
  rw [generateNode_eq]
  exact readNode_named name _

/-- The nodes at the ends of the edges, and their offsets. -/
theorem same_edges (d : Data) (n : ExportInfoNode) (es : List ExportInfoNodeEdge) :
    Descent.Same (NodeAt d) (some (es.mapM fun e => generateNode d (some (e, n))))
      (some (do
        let _ ← (es.map ExportInfoNodeEdge.link).mapM fun o => readNode d o ""
        return es.map ExportInfoNodeEdge.link)) := by
  induction es with
  | nil => exact .ok .nil
  | cons e es ih =>
    rw [List.map_cons, List.mapM_cons, List.mapM_cons, generateNode_edge d e n ""]
    cases hread : readNode d e.link "" with
    | error t => exact .error t
    | ok m =>
      have hat : NodeAt d m e.link := ⟨"", hread⟩
      rw [Except.map, ok_bind, ok_bind]
      generalize (es.mapM fun e => generateNode d (some (e, n))) = x at ih ⊢
      generalize ((es.map ExportInfoNodeEdge.link).mapM fun o => readNode d o "") = y at ih ⊢
      cases y with
      | error t =>
        cases ih
        exact .error t
      | ok ms =>
        cases ih with
        | ok hall => exact .ok (.cons (hat.named _) hall)

theorem same_children {d : Data} {n : ExportInfoNode} {offset : UInt64} (h : NodeAt d n offset) :
    Descent.Same (NodeAt d) (some ((nodeDescent d).children n))
      (some ((exportDescent d).children offset)) := by
  obtain ⟨name, hname⟩ := h
  have hedges : (exportDescent d).children offset = (do
      let _ ← (n.edges.map ExportInfoNodeEdge.link).mapM fun o => readNode d o ""
      return n.edges.map ExportInfoNodeEdge.link) := by
    unfold exportDescent
    simp only
    rw [readNode_named name "", hname]
    rfl
  rw [hedges]
  exact same_edges d n n.edges

/-- **`allNodes` visits the nodes at the offsets that `exportDescent` visits.** -/
theorem allNodes_agrees {d : Data} {n : ExportInfoNode} {offset : UInt64} (h : NodeAt d n offset)
    (stack : Nat) :
    Descent.Same (NodeAt d) ((nodeDescent d).run stack n) ((exportDescent d).run stack offset) :=
  Descent.run_simulates same_children h

/-- Only the walk can run out of stack. -/
theorem children_ne_stackOverflow (d : Data) (offset : UInt64) :
    (exportDescent d).children offset ≠ .error .stackOverflow := by
  refine bind_ne_error (readNode_ne_stackOverflow d _ _) fun n => ?_
  exact bind_ne_error (mapM_ne_error (fun o => readNode_ne_stackOverflow d o "") _) fun _ => nofun

/-! ## Termination -/

theorem initExportInfo_eq (d : Data) (stack : Nat) :
    initExportInfo stack d = readNode d 0 "" >>= fun root => (allNodes d stack root).map fun nodes =>
      nodes.mergeSort fun a b => decide (a.startOffsetInMacho ≤ b.startOffsetInMacho) := by
  unfold initExportInfo
  rw [generateNode_eq]
  change readNode d 0 "" >>= _ = _
  refine congrArg _ (funext fun root => ?_)
  cases allNodes d stack root <;> rfl

/-- On a large enough stack the component is initialised, or traps, iff the walk of the offsets ends. -/
theorem initExportInfo_ends_iff (d : Data) :
    (∃ stack, initExportInfo stack d ≠ .error .stackOverflow) ↔ (exportDescent d).Finishes 0 := by
  cases hroot : readNode d 0 "" with
  | error t =>
    have hchildren : (exportDescent d).children 0 = .error t := by
      unfold exportDescent
      simp only
      rw [hroot]
      rfl
    refine iff_of_true ⟨0, ?_⟩ ⟨1, _, Descent.run_error hchildren⟩
    rw [initExportInfo_eq, hroot, error_bind]
    intro he
    cases he
    exact readNode_ne_stackOverflow d 0 "" hroot
  | ok root =>
    have hsame := allNodes_agrees ⟨"", hroot⟩
    constructor
    · rintro ⟨stack, hne⟩
      have hsame := hsame stack
      rw [initExportInfo_eq, hroot, ok_bind, allNodes_eq] at hne
      cases hrun : (exportDescent d).run stack 0 with
      | some r => exact ⟨stack, r, hrun⟩
      | none =>
        rw [hrun] at hsame
        generalize (nodeDescent d).run stack root = r at hsame hne
        cases hsame
        exact absurd rfl hne
    · rintro ⟨stack, r, hrun⟩
      refine ⟨stack, ?_⟩
      have hsame := hsame stack
      rw [initExportInfo_eq, hroot, ok_bind, allNodes_eq]
      rw [hrun] at hsame
      generalize (nodeDescent d).run stack root = x at hsame ⊢
      cases hsame with
      | ok hall => nofun
      | error e =>
        intro he
        cases he
        exact Descent.run_ne_error (children_ne_stackOverflow d) hrun

/-- There are finitely many offsets. -/
theorem finite_offsets : (Set.univ : Set UInt64).Finite := by
  have : Finite UInt64 := Finite.of_injective UInt64.toFin fun _ _ => UInt64.toFin_inj.mp
  exact Set.finite_univ

/-- **The walk of an export trie reaches a result or a trap** iff, going down from the root to a child
whose earlier siblings are complete, it never comes back to an offset that it is below. -/
theorem exportWalk_ends_iff (d : Data) :
    (∃ stack, initExportInfo stack d ≠ .error .stackOverflow) ↔
      ¬ Cycles (exportDescent d).Enters 0 := by
  rw [initExportInfo_ends_iff]
  exact Descent.finishes_iff finite_offsets fun _ _ _ => Set.mem_univ _

/-- A root whose only edge leads back to it. -/
def selfEdge : Data := ⟨0, [0x00, 0x01, 0x61, 0x00, 0x00]⟩

/-- On `selfEdge` the recursion goes deeper than any stack. -/
theorem selfEdge_endless : ¬ ∃ stack, initExportInfo stack selfEdge ≠ .error .stackOverflow := by
  have hchildren : (exportDescent selfEdge).children 0 = .ok [0] := by decide +kernel
  have henters : (exportDescent selfEdge).Enters 0 0 := ⟨[], [], hchildren, nofun⟩
  rw [initExportInfo_ends_iff, Descent.finishes_iff finite_offsets fun _ _ _ => Set.mem_univ _]
  exact fun h => h ⟨0, .refl, .single henters⟩

/-! ## Highlighted ranges -/

/-- The bytes a node was read from. -/
def ExportInfoNode.span (n : ExportInfoNode) : Span := ⟨n.startOffsetInMacho, n.endOffsetInMacho⟩

/-- The lines of each node, with their ranges fixed, cover the bytes the node was read from. -/
def RangesOfNodes (d : Data) (nodes : List ExportInfoNode) : Prop :=
  List.Forall₂ (fun n g => TiledBy n.span.lower n.span.upper [g]) nodes
    (fixTranslationDataRange d.startIndex (translateExportInfo nodes))

/-- The node at `offset` ends at the offset `e`. -/
def EndsAt (d : Data) (offset : UInt64) (e : Nat) : Prop :=
  ∃ n, NodeAt d n offset ∧ n.endOffsetInMacho = d.startIndex + e

theorem NodeAt.start {d : Data} {n : ExportInfoNode} {offset : UInt64} (h : NodeAt d n offset) :
    n.startOffsetInMacho = d.startIndex + offset.toNat := by
  obtain ⟨name, h⟩ := h
  obtain ⟨-, _, _, _, _, _, -, -, -, -, -, rfl⟩ := readNode_eq_ok.mp h
  rfl

theorem NodeAt.end_eq {d : Data} {n m : ExportInfoNode} {offset : UInt64} (hn : NodeAt d n offset)
    (hm : NodeAt d m offset) : n.endOffsetInMacho = m.endOffsetInMacho := by
  obtain ⟨name, hn⟩ := hn
  obtain ⟨other, hm⟩ := hm
  rw [readNode_named name, hn] at hm
  cases hm
  rfl

theorem sorted_startOffsetInMacho (ns : List ExportInfoNode) :
    (ns.mergeSort fun a b => decide (a.startOffsetInMacho ≤ b.startOffsetInMacho)).Pairwise
      fun a b => a.startOffsetInMacho ≤ b.startOffsetInMacho := by
  have htrans : ∀ a b c : ExportInfoNode,
      decide (a.startOffsetInMacho ≤ b.startOffsetInMacho) = true →
      decide (b.startOffsetInMacho ≤ c.startOffsetInMacho) = true →
      decide (a.startOffsetInMacho ≤ c.startOffsetInMacho) = true := by
    intro a b c hab hbc
    exact decide_eq_true (Nat.le_trans (of_decide_eq_true hab) (of_decide_eq_true hbc))
  have htotal : ∀ a b : ExportInfoNode, (decide (a.startOffsetInMacho ≤ b.startOffsetInMacho) ||
      decide (b.startOffsetInMacho ≤ a.startOffsetInMacho)) = true := by
    intro a b
    rcases Nat.le_total a.startOffsetInMacho b.startOffsetInMacho with hle | hle
    · simp [hle]
    · simp [hle]
  exact (List.pairwise_mergeSort htrans htotal ns).imp of_decide_eq_true

/-- The nodes the component holds, in the order of the walk and sorted. -/
theorem initExportInfo_eq_ok {d : Data} {stack : Nat} {nodes : List ExportInfoNode}
    (h : initExportInfo stack d = .ok nodes) :
    ∃ ns os, (exportDescent d).run stack 0 = some (.ok os) ∧ List.Forall₂ (NodeAt d) ns os ∧
      nodes.Perm ns ∧ nodes.Pairwise fun a b => a.startOffsetInMacho ≤ b.startOffsetInMacho := by
  cases hroot : readNode d 0 "" with
  | error t =>
    rw [initExportInfo_eq, hroot, error_bind] at h
    cases h
  | ok root =>
    have hsame := allNodes_agrees ⟨"", hroot⟩ stack
    rw [initExportInfo_eq, hroot, ok_bind, allNodes_eq] at h
    generalize (nodeDescent d).run stack root = x at hsame h
    generalize hrun : (exportDescent d).run stack 0 = y at hsame
    cases hsame with
    | cut => cases h
    | error e => cases h
    | ok hall =>
      cases h
      refine ⟨_, _, rfl, hall, List.mergeSort_perm _ _, ?_⟩
      exact sorted_startOffsetInMacho _

/-- The ranges are right iff the nodes follow each other. -/
theorem rangesOfNodes_iff {d : Data} {stack : Nat} {nodes : List ExportInfoNode}
    (h : initExportInfo stack d = .ok nodes) :
    RangesOfNodes d nodes ↔ ∃ b, Tiles d.startIndex b (nodes.map ExportInfoNode.span) := by
  obtain ⟨ns, os, -, hall, hperm, -⟩ := initExportInfo_eq_ok h
  refine tiledBy_groups_iff fun n hn => ?_
  obtain ⟨o, -, name, hread⟩ := forall₂_exists_right hall (hperm.mem_iff.mp hn)
  refine ⟨?_, readNode_shown hread⟩
  obtain ⟨-, _, _, _, _, _, -, -, -, -, -, rfl⟩ := readNode_eq_ok.mp hread
  rw [translations_eq]
  exact List.cons_ne_nil _ _

/-- **Every node's lines highlight the node's own bytes** iff no node is reached along two paths and
every node but the root begins where a node ends. -/
theorem exportRanges_exact_iff {d : Data} {stack : Nat} {nodes : List ExportInfoNode}
    (h : initExportInfo stack d = .ok nodes) :
    RangesOfNodes d nodes ↔
      (∀ p q o, (exportDescent d).Path 0 p o → (exportDescent d).Path 0 q o → p = q) ∧
        ∀ o, (exportDescent d).Reaches 0 o → o ≠ 0 →
          ∃ o', (exportDescent d).Reaches 0 o' ∧ EndsAt d o' o.toNat := by
  obtain ⟨ns, os, hrun, hall, hperm, hsorted⟩ := initExportInfo_eq_ok h
  have hpos : ∀ s ∈ nodes.map ExportInfoNode.span, s.lower < s.upper := by
    intro s hs
    obtain ⟨n, hn, rfl⟩ := List.mem_map.mp hs
    obtain ⟨o, -, name, hread⟩ := forall₂_exists_right hall (hperm.mem_iff.mp hn)
    exact readNode_start_lt_end hread
  have hstarts : ns.map ExportInfoNode.startOffsetInMacho = os.map fun o => d.startIndex + o.toNat := by
    clear hperm hrun
    induction hall with
    | nil => rfl
    | cons hat _ ih => rw [List.map_cons, List.map_cons, hat.start, ih]
  have hnodup : ((nodes.map ExportInfoNode.span).map Span.lower).Nodup ↔ os.Nodup := by
    have hinj : Function.Injective fun o : UInt64 => d.startIndex + o.toNat := by
      intro o o' heq
      exact UInt64.toNat_inj.mp (Nat.add_left_cancel heq)
    rw [List.map_map, (hperm.map _).nodup_iff, ← List.nodup_map_iff hinj, ← hstarts]
    rfl
  rw [rangesOfNodes_iff h, exists_tiles_iff (List.pairwise_map.mpr hsorted) hpos, hnodup,
    Descent.nodup_iff hrun]
  refine and_congr_right fun _ => ?_
  constructor
  · intro hlower o ho hne
    obtain ⟨n, hn, hat⟩ := forall₂_exists_left hall ((Descent.mem_run_iff hrun).mpr ho)
    rcases hlower n.span (List.mem_map_of_mem (hperm.mem_iff.mpr hn)) with hroot | ⟨s, hs, hend⟩
    · have hzero : o.toNat = 0 := by
        have hstart := hat.start
        have hroot : n.startOffsetInMacho = d.startIndex := hroot
        omega
      exact absurd (UInt64.toNat_inj.mp hzero) hne
    · obtain ⟨m, hm, rfl⟩ := List.mem_map.mp hs
      obtain ⟨o', ho', hat'⟩ := forall₂_exists_right hall (hperm.mem_iff.mp hm)
      exact ⟨o', (Descent.mem_run_iff hrun).mp ho', m, hat', hend.trans hat.start⟩
  · intro hends s hs
    obtain ⟨n, hn, rfl⟩ := List.mem_map.mp hs
    obtain ⟨o, ho, hat⟩ := forall₂_exists_right hall (hperm.mem_iff.mp hn)
    by_cases hzero : o = 0
    · subst hzero
      exact .inl hat.start
    · obtain ⟨o', ho', m, hm, hend⟩ := hends o ((Descent.mem_run_iff hrun).mp ho) hzero
      obtain ⟨m', hm', hat'⟩ := forall₂_exists_left hall ((Descent.mem_run_iff hrun).mpr ho')
      refine .inr ⟨m'.span, List.mem_map_of_mem (hperm.mem_iff.mpr hm'), ?_⟩
      exact (hat'.end_eq hm).trans (hend.trans hat.start.symm)

/-- A trie whose nodes lie in the order of the walk. -/
theorem initExportInfo_spans {d : Data} {stack : Nat} {ss : List Span}
    (h : (readNode d 0 "" >>= allNodes d stack).map (fun ns => ns.map ExportInfoNode.span) = .ok ss)
    (hsorted : ss.Pairwise fun s t => decide (s.lower ≤ t.lower) = true) :
    ∃ nodes, initExportInfo stack d = .ok nodes ∧ nodes.map ExportInfoNode.span = ss := by
  cases hroot : readNode d 0 "" with
  | error t =>
    rw [hroot] at h
    cases h
  | ok root =>
    rw [hroot, ok_bind] at h
    cases hall : allNodes d stack root with
    | error t =>
      rw [hall] at h
      cases h
    | ok ns =>
      rw [hall] at h
      cases h
      refine ⟨ns, ?_, rfl⟩
      rw [initExportInfo_eq, hroot, ok_bind, hall]
      exact congrArg Except.ok (List.mergeSort_of_pairwise (List.pairwise_map.mp hsorted))

/-- A root and the node its only edge leads to, right behind it. -/
def adjacentNodes : Data := ⟨0, [0x00, 0x01, 0x61, 0x00, 0x05, 0x00, 0x00]⟩

theorem exportRanges_exact_iff_adjacentNodes :
    ∃ nodes, initExportInfo 2 adjacentNodes = .ok nodes ∧ RangesOfNodes adjacentNodes nodes ∧
      ∀ p q o, (exportDescent adjacentNodes).Path 0 p o →
        (exportDescent adjacentNodes).Path 0 q o → p = q := by
  obtain ⟨nodes, hnodes, hspans⟩ : ∃ nodes, initExportInfo 2 adjacentNodes = .ok nodes ∧
      nodes.map ExportInfoNode.span = [⟨0, 5⟩, ⟨5, 7⟩] :=
    initExportInfo_spans (by decide +kernel) (by decide)
  have hranges : RangesOfNodes adjacentNodes nodes := by
    rw [rangesOfNodes_iff hnodes, hspans]
    exact ⟨7, rfl, by decide, rfl, by decide, rfl⟩
  exact ⟨nodes, hnodes, hranges, ((exportRanges_exact_iff hnodes).mp hranges).1⟩

/-- The same with a byte between the two. -/
def gappedNodes : Data := ⟨0, [0x00, 0x01, 0x61, 0x00, 0x06, 0xff, 0x00, 0x00]⟩

/-- The lines of the second node of `gappedNodes`, at 6, highlight the bytes from 5 on. -/
theorem gappedNodes_misplaced :
    ∃ nodes, initExportInfo 2 gappedNodes = .ok nodes ∧
      nodes.map ExportInfoNode.span = [⟨0, 5⟩, ⟨6, 8⟩] ∧ ¬ RangesOfNodes gappedNodes nodes := by
  obtain ⟨nodes, hnodes, hspans⟩ : ∃ nodes, initExportInfo 2 gappedNodes = .ok nodes ∧
      nodes.map ExportInfoNode.span = [⟨0, 5⟩, ⟨6, 8⟩] :=
    initExportInfo_spans (by decide +kernel) (by decide)
  refine ⟨nodes, hnodes, hspans, ?_⟩
  rw [rangesOfNodes_iff hnodes, hspans]
  rintro ⟨b, -, -, hlower, -⟩
  cases hlower

end Mocha
