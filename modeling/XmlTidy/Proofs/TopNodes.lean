import Mathlib.Data.Multiset.AddSub
import XmlTidy.Proofs.LocatedFragments
import XmlTidy.Proofs.ReadDocument

/-!
The top-level nodes of a document in the order of the text. A document keeps them by kind, and sorting them by
their offsets puts them in order. The document that a spelling stands for has the nodes of the spelling, each
where it is spelled.
-/

namespace XmlTidy

/-- A node at the top level of a document. -/
inductive TopNode where
  | prolog (p : Prolog)
  | doctype (d : Doctype)
  | misc (m : Misc)
  | root (node : Node)

def TopNode.span : TopNode → Span
  | .prolog p => p.span
  | .doctype d => d.span
  | .misc m => m.span
  | .root node => node.span

namespace Document

/-- The top-level nodes, by kind. -/
def nodesByKind (d : Document) : List TopNode :=
  d.doctype.toList.map .doctype ++ d.prolog.toList.map .prolog ++ d.misc.map .misc ++
    d.root.toList.map fun e => .root e.toNode

/-- The top-level nodes in the order of their offsets. -/
def topNodes (d : Document) : List TopNode :=
  sortedBy (fun node => node.span.first) d.nodesByKind

end Document

namespace Spelled

/-- The node that a spelling at the top level stands for at an offset. -/
def Top.node (src : Source) (offset : Nat) : Top → TopNode
  | .misc kind image => .misc ⟨image, kind, src.span offset (offset + image.length)⟩
  | .doctype decl => .doctype (decl.locate src offset)
  | .root item => .root (item.locate src offset)

/-- The nodes of a list that starts at an offset. -/
def topNodesAt (src : Source) : Nat → List (Text × Top) → List TopNode
  | _, [] => []
  | n, (gap, top) :: rest =>
      top.node src (n + gap.length) :: topNodesAt src (n + gap.length + top.text.length) rest

/-- The nodes of a whole document. -/
def Whole.nodes (src : Source) (w : Whole) : List TopNode :=
  (w.declaration.map fun d => .prolog (d.locate src 0)).toList ++
    topNodesAt src w.declarationText.length w.tops

theorem Top.first_node (src : Source) (n : Nat) (top : Top) : (top.node src n).span.first = n := by
  cases top with
  | misc kind image => rfl
  | doctype decl => rfl
  | root item => exact first_locate src n item

theorem top_text_ne_nil {top : Top} (h : top.WellFormed) : top.text ≠ [] := by
  obtain ⟨t, ht⟩ := Cursor.angle_of_top h
  rw [ht]
  exact List.cons_ne_nil _ t

/-- The root of a document is an element. -/
theorem exists_element {item : Item} (h : item.IsElement) (src : Source) (n : Nat) :
    ∃ e, (item.locate src n).element? = some e ∧ e.toNode = item.locate src n := by
  cases item with
  | leaf cls image => exact h.elim
  | empty tag => rw [Item.locate]; exact ⟨_, rfl, rfl⟩
  | full tag children endTail => rw [Item.locate]; exact ⟨_, rfl, rfl⟩

section Nodes

variable {src : Source}

/-- The top-level nodes of a draft. -/
def draftNodes (draft : Draft) : Multiset TopNode :=
  ((draft.toDocument (src.span 0 0)).nodesByKind : List TopNode)

theorem draftNodes_addTo {top : Top} (htop : top.WellFormed) {draft : Draft}
    (hadmits : Cursor.Admits draft top) (n : Nat) :
    @draftNodes src (top.addTo src n draft) = top.node src n ::ₘ @draftNodes src draft := by
  cases top with
  | misc kind image =>
      simp [draftNodes, Document.nodesByKind, Draft.toDocument, Top.addTo, Draft.addMisc, Top.node,
        ← Multiset.coe_add, ← Multiset.cons_coe]
  | doctype decl =>
      simp only [Cursor.Admits] at hadmits
      simp [draftNodes, Document.nodesByKind, Draft.toDocument, Top.addTo, Top.node, hadmits]
  | root item =>
      simp only [Cursor.Admits] at hadmits
      obtain ⟨e, he, hnode⟩ := exists_element htop.1 src n
      rw [Top.node, ← hnode]
      simp only [draftNodes, Document.nodesByKind, Draft.toDocument, Top.addTo, hadmits, he,
        Option.toList_some, Option.toList_none, List.map_cons, List.map_nil, List.append_nil]
      rw [← Multiset.coe_add, Multiset.coe_singleton, Multiset.add_comm, Multiset.singleton_add]

theorem draftNodes_addTops {tops : List (Text × Top)} (h : ∀ top ∈ tops, Blanks top.1 ∧ top.2.WellFormed)
    (horder : (tops.map Prod.snd).Pairwise Top.Before) {draft : Draft}
    (hadmits : ∀ top ∈ tops, Cursor.Admits draft top.2) (n : Nat) :
    @draftNodes src (Whole.addTops src n draft tops) =
      (topNodesAt src n tops : Multiset TopNode) + @draftNodes src draft := by
  induction tops generalizing n draft with
  | nil => simp [Whole.addTops, topNodesAt]
  | cons first rest ih =>
      obtain ⟨gap, top⟩ := first
      obtain ⟨-, htop⟩ := h (gap, top) (by simp)
      rw [List.map_cons, List.pairwise_cons] at horder
      have hadmits' : ∀ next ∈ rest, Cursor.Admits (top.addTo src (n + gap.length) draft) next.2 :=
        fun next hnext => (Cursor.admits_addTo htop).2
          ⟨hadmits next (by simp [hnext]), horder.1 next.2 (List.mem_map_of_mem hnext)⟩
      rw [Whole.addTops, topNodesAt, ← Multiset.cons_coe, ih (fun next hnext => h next (by simp [hnext])) horder.2
        hadmits', draftNodes_addTo htop (hadmits (gap, top) (by simp)), Multiset.add_cons, Multiset.cons_add]

theorem pairwise_topNodesAt {tops : List (Text × Top)} (h : ∀ top ∈ tops, top.2.text ≠ []) (n : Nat) :
    (topNodesAt src n tops).Pairwise (fun a b => a.span.first < b.span.first) ∧
      ∀ a ∈ topNodesAt src n tops, n ≤ a.span.first := by
  induction tops generalizing n with
  | nil => simp [topNodesAt]
  | cons first rest ih =>
      obtain ⟨gap, top⟩ := first
      have hpos := List.length_pos_iff.2 (h (gap, top) (by simp))
      obtain ⟨horder, hle⟩ := ih (fun next hnext => h next (by simp [hnext]))
        (n + gap.length + top.text.length)
      rw [topNodesAt, List.pairwise_cons]
      refine ⟨⟨fun a ha => ?_, horder⟩, fun a ha => ?_⟩
      · have := hle a ha
        rw [Top.first_node]
        simp only at hpos
        omega
      · rcases List.mem_cons.1 ha with rfl | ha
        · rw [Top.first_node]
          omega
        · have := hle a ha
          omega

end Nodes

/-- The top-level nodes of a spelling are those of the document it stands for. -/
theorem topNodes_locate {w : Whole} (hw : w.WellFormed) :
    w.locate.topNodes = w.nodes (Source.ofText w.text) := by
  have hdraft : @draftNodes (Source.ofText w.text) (w.draft (Source.ofText w.text)) =
      (w.nodes (Source.ofText w.text) : List TopNode) := by
    rw [Whole.draft, draftNodes_addTops hw.tops hw.order, Multiset.add_comm, Whole.nodes, ← Multiset.coe_add]
    · congr 1
      cases w.declaration <;> rfl
    · intro top _
      cases top.2 <;> simp [Cursor.Admits]
  obtain ⟨horder, hle⟩ := @pairwise_topNodesAt (Source.ofText w.text) w.tops
    (fun top htop => top_text_ne_nil (hw.tops top htop).2) w.declarationText.length
  refine sortedBy_eq_of_perm (Multiset.coe_eq_coe.1 hdraft).symm ?_
  rw [Whole.nodes, List.pairwise_append]
  refine ⟨by cases w.declaration <;> simp, horder, fun a ha b hb => ?_⟩
  have hb' := hle b hb
  rw [Option.mem_toList, Option.map_eq_some_iff] at ha
  obtain ⟨d, hd, rfl⟩ := ha
  have hpos : 0 < w.declarationText.length := by
    rw [Whole.declarationText, hd]
    simp [Declaration.text, Cursor.prologStart]
  have hzero : (TopNode.prolog (d.locate (Source.ofText w.text) 0)).span.first = 0 := rfl
  omega

end Spelled

end XmlTidy
