import XmlTidy.Proofs.TopNodes

/-!
The elements of a document in document order. All elements of a tree are listed, and nothing else is. The children
of a node that was read stand in the order of their offsets, so its elements are the node itself and then the
elements of its children, one child after the other, at increasing offsets; and the elements of a document are
those of its root.
-/

namespace XmlTidy

theorem Node.induct {motive : Node → Prop} (leaf : ∀ l, motive (.leaf l))
    (element : ∀ tag children, (∀ child ∈ children, motive child) → motive (.element tag children)) (node : Node) :
    motive node :=
  @Node.rec motive (fun nodes => ∀ child ∈ nodes, motive child) leaf element (List.forall_mem_nil _)
    (fun _ _ hnode hnodes => List.forall_mem_cons.2 ⟨hnode, hnodes⟩) node

theorem Node.elementsIn_eq (nodes : List Node) :
    Node.elementsIn nodes = nodes.map fun node => (node.span.first, node.elements) := by
  induction nodes with
  | nil => rw [Node.elementsIn, List.map_nil]
  | cons node nodes ih => rw [Node.elementsIn, ih, List.map_cons]

/-- The elements of a tree are its node and the elements of the children, in some order. -/
theorem Node.elements_perm (tag : Tag) (children : List Node) :
    (Node.element tag children).elements.Perm (⟨tag, children⟩ :: children.flatMap Node.elements) := by
  rw [Node.elements, List.flatMap_def]
  apply List.Perm.cons
  have hsorted : (sortedBy Prod.fst (Node.elementsIn children)).Perm (Node.elementsIn children) :=
    List.mergeSort_perm ..
  have hchildren : (Node.elementsIn children).map Prod.snd = children.map Node.elements := by
    rw [Node.elementsIn_eq, List.map_map]
    rfl
  rw [← hchildren]
  exact (hsorted.map Prod.snd).flatten

/-- An element of the tree at a node: the node itself, or an element of the tree at a child. -/
inductive Node.Holds : Node → Element → Prop where
  | here (e : Element) : Holds e.toNode e
  | inside {tag : Tag} {children : List Node} {child : Node} {e : Element} (hchild : child ∈ children)
      (h : Holds child e) : Holds (.element tag children) e

/-- All elements of a tree are listed, and nothing else is. -/
theorem Node.mem_elements_iff {node : Node} {e : Element} : e ∈ node.elements ↔ node.Holds e := by
  constructor
  · intro he
    induction node using Node.induct with
    | leaf l =>
        rw [Node.elements] at he
        cases he
    | element tag children ih =>
        rw [(Node.elements_perm tag children).mem_iff, List.mem_cons, List.mem_flatMap] at he
        rcases he with rfl | ⟨child, hchild, he⟩
        · exact .here ⟨tag, children⟩
        · exact .inside hchild (ih child hchild he)
  · intro h
    induction h with
    | here e => exact (Node.elements_perm e.tag e.children).mem_iff.2 List.mem_cons_self
    | @inside tag children child e hchild _ ih =>
        rw [(Node.elements_perm tag children).mem_iff, List.mem_cons, List.mem_flatMap]
        exact .inr ⟨child, hchild, ih⟩

/-- Children in the order of their offsets are listed in their order. -/
theorem Node.elements_of_pairwise {tag : Tag} {children : List Node}
    (h : children.Pairwise fun a b => a.span.first ≤ b.span.first) :
    (Node.element tag children).elements = ⟨tag, children⟩ :: children.flatMap Node.elements := by
  have hsorted : sortedBy Prod.fst (Node.elementsIn children) = Node.elementsIn children := by
    refine List.mergeSort_of_pairwise ?_
    rw [Node.elementsIn_eq, List.pairwise_map]
    exact h.imp fun hab => by simpa using hab
  rw [Node.elements, hsorted, Node.elementsIn_eq, List.map_map, ← List.flatMap_def]
  rfl

namespace Spelled

theorem pairwise_locateAll (src : Source) (n : Nat) (items : List Item) :
    (Item.locateAll src n items).Pairwise (fun a b => a.span.first ≤ b.span.first) ∧
      ∀ node ∈ Item.locateAll src n items, n ≤ node.span.first := by
  induction items generalizing n with
  | nil => simp [Item.locateAll]
  | cons item rest ih =>
      obtain ⟨hrest, hle⟩ := ih (n + item.text.length)
      rw [Item.locateAll, List.pairwise_cons]
      refine ⟨⟨fun node hnode => ?_, hrest⟩, fun node hnode => ?_⟩
      · rw [first_locate]
        exact Nat.le_trans (Nat.le_add_right ..) (hle node hnode)
      · rcases List.mem_cons.1 hnode with rfl | hnode
        · rw [first_locate]
        · exact Nat.le_trans (Nat.le_add_right ..) (hle node hnode)

/-- The elements among located items and below them. -/
theorem elements_locateAll (tag : Tag) (src : Source) (n : Nat) (items : List Item) :
    (Node.element tag (Item.locateAll src n items)).elements =
      ⟨tag, Item.locateAll src n items⟩ :: (Item.locateAll src n items).flatMap Node.elements :=
  Node.elements_of_pairwise (pairwise_locateAll src n items).1

theorem elements_locate_leaf (cls : LeafClass) (image : Text) (src : Source) (n : Nat) :
    ((Item.leaf cls image).locate src n).elements = [] := by
  rw [Item.locate, Node.elements]

theorem elements_empty (tag : Tag) : (Node.element tag []).elements = [⟨tag, []⟩] :=
  Node.elements_of_pairwise .nil

theorem exists_of_mem_locateAll {src : Source} {n : Nat} {items : List Item} {node : Node}
    (h : node ∈ Item.locateAll src n items) :
    ∃ before item after, items = before ++ item :: after ∧
      node = item.locate src (n + (Item.textAll before).length) := by
  induction items generalizing n with
  | nil => simp [Item.locateAll] at h
  | cons item rest ih =>
      rw [Item.locateAll] at h
      rcases List.mem_cons.1 h with rfl | h
      · exact ⟨[], item, rest, rfl, rfl⟩
      · obtain ⟨before, item', after, rfl, rfl⟩ := ih h
        exact ⟨item :: before, item', after, rfl, by rw [Item.textAll, List.length_append, Nat.add_assoc]⟩

/-- Elements at increasing offsets from `n` on, up to but not including `stop`. -/
structure Increasing (n stop : Nat) (elements : List Element) : Prop where
  order : elements.Pairwise fun a b => a.tag.span.first < b.tag.span.first
  bounds : ∀ e ∈ elements, n ≤ e.tag.span.first ∧ e.tag.span.first < stop

theorem Increasing.append {n m stop : Nat} {es es' : List Element} (h : Increasing n m es)
    (h' : Increasing m stop es') (hn : n ≤ m) (hm : m ≤ stop) : Increasing n stop (es ++ es') := by
  refine ⟨List.pairwise_append.2 ⟨h.order, h'.order, fun a ha b hb => ?_⟩, fun e he => ?_⟩
  · have := h.bounds a ha
    have := h'.bounds b hb
    omega
  · rcases List.mem_append.1 he with he | he
    · have := h.bounds e he
      omega
    · have := h'.bounds e he
      omega

theorem increasing_flatMap_locateAll {src : Source} {items : List Item}
    (h : ∀ item ∈ items, ∀ n, Increasing n (n + item.text.length) (item.locate src n).elements) (n : Nat) :
    Increasing n (n + (Item.textAll items).length) ((Item.locateAll src n items).flatMap Node.elements) := by
  induction items generalizing n with
  | nil => exact ⟨.nil, by simp [Item.locateAll]⟩
  | cons item rest ih =>
      obtain ⟨hitem, hrest⟩ := List.forall_mem_cons.1 h
      rw [Item.locateAll, List.flatMap_cons, Item.textAll, List.length_append, ← Nat.add_assoc]
      exact (hitem n).append (ih hrest _) (by omega) (by omega)

/-- The elements of a spelled item start inside its text, one behind the other. -/
theorem increasing_elements (src : Source) (item : Item) (n : Nat) :
    Increasing n (n + item.text.length) (item.locate src n).elements := by
  induction item using Item.induct generalizing n with
  | leaf cls image =>
      rw [elements_locate_leaf]
      exact ⟨.nil, by simp⟩
  | empty tag =>
      rw [Item.locate, elements_empty, Item.text]
      refine ⟨List.pairwise_singleton .., fun e he => ?_⟩
      obtain rfl := List.mem_singleton.1 he
      simp [Open.emptyTag, Source.span]
  | full tag children endTail ih =>
      have hchildren := increasing_flatMap_locateAll ih (n + (tag.text.length + 1))
      have hlength : (Item.full tag children endTail).text.length = tag.text.length + 1 +
          (Item.textAll children).length + (Item.endTag tag.name endTail).length := by
        rw [Item.text, List.length_append, List.length_cons, List.length_append]
        omega
      rw [Item.locate, elements_locateAll, hlength]
      refine ⟨List.pairwise_cons.2 ⟨fun e he => ?_, hchildren.order⟩, List.forall_mem_cons.2 ⟨?_, fun e he => ?_⟩⟩
      · have := hchildren.bounds e he
        show n < e.tag.span.first
        omega
      · show n ≤ n ∧ n < _
        omega
      · have := hchildren.bounds e he
        omega

end Spelled

/-! ### Documents -/

def TopNode.elements : TopNode → List Element
  | .root node => node.elements
  | _ => []

def TopNode.root? : TopNode → Option Node
  | .root node => some node
  | _ => none

theorem TopNode.flatMap_elements (nodes : List TopNode) :
    nodes.flatMap TopNode.elements = (nodes.filterMap TopNode.root?).flatMap Node.elements := by
  induction nodes with
  | nil => rfl
  | cons node nodes ih =>
      rw [List.flatMap_cons, ih]
      cases node <;> rfl

/-- A document has at most one root. -/
theorem Document.filterMap_root (d : Document) :
    d.topNodes.filterMap TopNode.root? = d.root.toList.map Element.toNode := by
  have hkinds : d.nodesByKind.filterMap TopNode.root? = d.root.toList.map Element.toNode := by
    have hnone : ∀ {α : Type} (f : α → TopNode) (_ : ∀ a, (f a).root? = none) (l : List α),
        (l.map f).filterMap TopNode.root? = [] := by
      intro α f hf l
      rw [List.filterMap_map, List.filterMap_eq_nil_iff]
      exact fun a _ => hf a
    have hroot : ∀ l : List Element, (l.map fun e => TopNode.root e.toNode).filterMap TopNode.root? =
        l.map Element.toNode := by
      intro l
      rw [List.filterMap_map]
      exact congrFun List.filterMap_eq_map l
    rw [Document.nodesByKind, List.filterMap_append, List.filterMap_append, List.filterMap_append,
      hnone _ fun _ => rfl, hnone _ fun _ => rfl, hnone _ fun _ => rfl, hroot]
    rfl
  have hperm : (d.topNodes.filterMap TopNode.root?).Perm (d.root.toList.map Element.toNode) := by
    rw [← hkinds]
    exact (List.mergeSort_perm ..).filterMap _
  cases hd : d.root with
  | none =>
      rw [hd] at hperm
      exact hperm.eq_nil
  | some e =>
      rw [hd] at hperm
      exact List.perm_singleton.1 hperm

theorem Document.elements_eq (d : Document) : d.elements = d.topNodes.flatMap TopNode.elements := by
  rw [TopNode.flatMap_elements, Document.filterMap_root, Document.elements]
  cases d.root <;> simp

/-- The elements of a document are those of its root. -/
theorem Document.elements_of_root {d : Document} {node : Node} (h : .root node ∈ d.topNodes) :
    d.elements = node.elements := by
  have hroot : node ∈ d.root.toList.map Element.toNode := by
    rw [← Document.filterMap_root]
    exact List.mem_filterMap.2 ⟨_, h, rfl⟩
  obtain ⟨e, he, rfl⟩ := List.mem_map.1 hroot
  rw [Document.elements, Option.mem_toList.1 he]

/-- The root is the first element. -/
theorem Document.head?_elements {d : Document} {e : Element} (h : d.root = some e) : d.elements.head? = some e := by
  rw [elements, h]
  rfl

theorem Document.root_mem_topNodes {d : Document} {e : Element} (he : d.root = some e) :
    .root e.toNode ∈ d.topNodes := by
  have hmem : e.toNode ∈ d.topNodes.filterMap TopNode.root? := by
    rw [filterMap_root, he]
    simp
  obtain ⟨top, htop, hnode⟩ := List.mem_filterMap.1 hmem
  cases top with
  | root node =>
      obtain rfl := Option.some.inj hnode
      exact htop
  | _ => cases hnode

theorem Spelled.exists_root_of_mem {src : Source} {tops : List (Text × Top)} {n : Nat} {node : Node}
    (h : .root node ∈ topNodesAt src n tops) : ∃ item m, .root item ∈ tops.map Prod.snd ∧ node = item.locate src m := by
  induction tops generalizing n with
  | nil => cases h
  | cons first rest ih =>
      obtain ⟨gap, top⟩ := first
      rw [topNodesAt, List.mem_cons] at h
      rcases h with h | h
      · cases top with
        | root item => exact ⟨item, _, by simp, TopNode.root.inj h⟩
        | _ => cases h
      · obtain ⟨item, m, hmem, hnode⟩ := ih h
        exact ⟨item, m, by simp [hmem], hnode⟩

theorem Spelled.elements_locate {w : Whole} (hw : w.WellFormed) :
    w.locate.elements =
      (topNodesAt (Source.ofText w.text) w.declarationText.length w.tops).flatMap TopNode.elements := by
  rw [Document.elements_eq, topNodes_locate hw, Whole.nodes, List.flatMap_append]
  cases w.declaration <;> rfl

/-- The elements of a document that was read start at increasing offsets. -/
theorem Spelled.increasing_elements_locate {w : Whole} (hw : w.WellFormed) :
    w.locate.elements.Pairwise fun a b => a.tag.span.first < b.tag.span.first := by
  cases hroot : w.locate.root with
  | none => simp [Document.elements, hroot]
  | some e =>
      have hmem := Document.root_mem_topNodes hroot
      rw [Document.elements_of_root hmem]
      rw [topNodes_locate hw, Whole.nodes, List.mem_append] at hmem
      rcases hmem with hmem | hmem
      · cases hd : w.declaration <;> simp [hd] at hmem
      · obtain ⟨item, m, -, hnode⟩ := exists_root_of_mem hmem
        rw [hnode]
        exact (increasing_elements _ item m).order

end XmlTidy
