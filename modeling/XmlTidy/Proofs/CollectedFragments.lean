import XmlTidy.Proofs.Lossless
import XmlTidy.Proofs.Writing

/-!
The fragments of the children of an element that was read, whatever the style. They come in the order of the
children. Where runs may be reflowed each child has a fragment of its own. Where they are preserved two runs
share a fragment exactly if the second one starts right behind the first one and the line goes on there, and
the fragments, with elements as they were written, spell out the content.
-/

namespace XmlTidy

open Spelled

/-! ### Literal text -/

namespace Doc

mutual
/-- The texts and literal newlines of a document, one behind the other; of the branches of an `ifBreak`, those of
the first. -/
def literal : Doc → Text
  | .text t => t
  | .line l => if l.literal then ['\n'] else []
  | .concat parts | .fill parts => literalAll parts
  | .group contents _ | .indent contents => literal contents
  | .ifBreak broken _ => literal broken
  | .breakParent | .stray _ => []

def literalAll : List Doc → Text
  | [] => []
  | doc :: docs => literal doc ++ literalAll docs
end

theorem literalAll_join_texts (ls : List Text) :
    literalAll (join literalLine (ls.map text)) = ['\n'].intercalate ls := by
  induction ls with
  | nil => rfl
  | cons l ls ih =>
      cases ls with
      | nil => simp [join, literalAll, literal]
      | cons l' ls =>
          rw [List.map_cons, join] at ih
          rw [List.map_cons, List.map_cons, join, List.intersperse_cons_cons, literalAll, literalAll, ih]
          simp [literal, literalLine, literalAll]

theorem literal_verbatim (t : Text) : (verbatim t).literal = t := by
  rw [verbatim, ofLines]
  split
  · rw [literal, literalAll_join_texts, Text.intercalate_lines]
  · rw [literal]

end Doc

/-! ### What a fragment covers -/

/-- Runs of which the second one starts right behind the first one, where the line goes on. -/
def CharData.Meets (r s : CharData) : Prop :=
  (s.span.first : Int) = r.span.last + 1 ∧ r.image.getLast? ≠ some '\n'

instance : DecidableRel CharData.Meets := fun r s =>
  inferInstanceAs (Decidable ((s.span.first : Int) = r.span.last + 1 ∧ r.image.getLast? ≠ some '\n'))

def Node.fragmentKind : Node → FragmentKind
  | .leaf (.charData _) => .charData
  | .leaf (.cdata _) => .cdata
  | .leaf (.comment _) => .comment
  | .leaf (.instruction _) => .instruction
  | .leaf (.reference _) => .reference
  | .element _ _ => .element

/-- A fragment that starts with the first of some children and ends on the line of the last one. -/
structure Fragment.Covers (nodes : List Node) (f : Fragment) : Prop where
  start : ∃ first ∈ nodes.head?, f.kind = first.fragmentKind ∧ f.offset = first.span.first ∧
    f.startLine = first.span.start.line
  stop : ∃ last ∈ nodes.getLast?, f.endLine = last.span.stop.line

/-- The fragments of preserved children. -/
inductive Gathers (job : Job) : List Node → Fragment → Prop where
  | child (node : Node) : Gathers job [node] (nodeFragment true (node.layout job) node)
  | runs {r s : CharData} (h : r.Meets s) :
      Gathers job [.leaf (.charData r), .leaf (.charData s)] ((Fragment.ofPreserved r).extend s)

theorem covers_ofReflowed (run : CharData) : (Fragment.ofReflowed run).Covers [.leaf (.charData run)] := by
  rw [Fragment.ofReflowed]
  split <;> exact ⟨⟨_, rfl, rfl, rfl, rfl⟩, _, rfl, rfl⟩

theorem covers_nodeFragment (preserve : Bool) (doc : Doc) (node : Node) :
    (nodeFragment preserve doc node).Covers [node] := by
  cases node with
  | element tag children => exact ⟨⟨_, rfl, rfl, rfl, rfl⟩, _, rfl, rfl⟩
  | leaf l =>
      cases l with
      | charData run =>
          cases preserve with
          | true => exact ⟨⟨_, rfl, rfl, rfl, rfl⟩, _, rfl, rfl⟩
          | false => exact covers_ofReflowed run
      | _ => exact ⟨⟨_, rfl, rfl, rfl, rfl⟩, _, rfl, rfl⟩

theorem Gathers.covers {job : Job} {nodes : List Node} {f : Fragment} (h : Gathers job nodes f) : f.Covers nodes := by
  cases h with
  | child node => exact covers_nodeFragment true _ node
  | runs h => exact ⟨⟨_, rfl, rfl, rfl, rfl⟩, _, rfl, rfl⟩

section Groups

variable {groups : List (List Node)} {fs : List Fragment}

/-- Fragments that cover children in order are in order. -/
theorem inOrder_of_covers (h : List.Forall₂ (fun nodes f => f.Covers nodes) groups fs)
    (horder : groups.flatten.Pairwise fun a b => a.span.first < b.span.first) :
    InOrder fs ∧ ∀ f ∈ fs, ∃ node ∈ groups.flatten, f.offset = node.span.first := by
  induction h with
  | nil => simp
  | @cons nodes f groups fs hcovers _ ih =>
      rw [List.flatten_cons, List.pairwise_append] at horder
      obtain ⟨-, hrest, hbefore⟩ := horder
      obtain ⟨hfs, hnodes⟩ := ih hrest
      obtain ⟨first, hfirst, -, hoffset, -⟩ := hcovers.start
      have hmem : first ∈ nodes := List.mem_of_mem_head? hfirst
      rw [List.flatten_cons]
      refine ⟨List.pairwise_cons.2 ⟨fun g hg => ?_, hfs⟩, fun g hg => ?_⟩
      · obtain ⟨node, hnode, hg⟩ := hnodes g hg
        rw [hoffset, hg]
        exact_mod_cast hbefore first hmem node hnode
      · rcases List.mem_cons.1 hg with rfl | hg
        · exact ⟨first, List.mem_append_left _ hmem, hoffset⟩
        · obtain ⟨node, hnode, hg⟩ := hnodes g hg
          exact ⟨node, List.mem_append_right _ hnode, hg⟩

/-- A fragment is made of one child or of two runs. -/
theorem Gathers.size {job : Job} (h : List.Forall₂ (Gathers job) groups fs) {nodes : List Node}
    (hmem : nodes ∈ groups) :
    (∃ node, nodes = [node]) ∨ ∃ r s, r.Meets s ∧ nodes = [.leaf (.charData r), .leaf (.charData s)] := by
  induction h with
  | nil => cases hmem
  | cons hgathers _ ih =>
      rcases List.mem_cons.1 hmem with rfl | hmem
      · cases hgathers with
        | child node => exact .inl ⟨node, rfl⟩
        | runs h => exact .inr ⟨_, _, h, rfl⟩
      · exact ih hmem

end Groups

/-! ### Fragments that may be reflowed -/

theorem inOrder_flow (job : Job) {nodes : List Node}
    (h : nodes.Pairwise fun a b => a.span.first < b.span.first) :
    InOrder (nodes.map fun node => nodeFragment false (node.layout job) node) := by
  refine List.pairwise_map.2 (h.imp fun {a b} hab => ?_)
  rw [offset_nodeFragment, offset_nodeFragment]
  exact_mod_cast hab

/-! ### Preserved fragments -/

theorem isRun_of_locate {src : Source} {n : Nat} {item : Item} {run : CharData}
    (h : item.locate src n = .leaf (.charData run)) : item.isRun = true := by
  by_contra hrun
  rw [Bool.not_eq_true] at hrun
  have hnone := @charData?_of_not_run src n item hrun
  rw [h] at hnone
  cases hnone

/-- An item whose run meets that of its neighbour belongs to one piece with it. -/
theorem meets_of_locateAll {src : Source} {n : Nat} {item : Item} {rest : List Item}
    (h : Item.WellFormedAll (item :: rest)) {r s : CharData}
    (hpair : [.leaf (.charData r), .leaf (.charData s)] <+: Item.locateAll src n (item :: rest)) (hrs : r.Meets s) :
    ∃ next ∈ rest.head?, item.meets next = true := by
  rw [Item.WellFormedAll] at h
  rw [Item.locateAll, List.cons_prefix_cons] at hpair
  obtain ⟨hr, hpair⟩ := hpair
  cases rest with
  | nil => simp [Item.locateAll] at hpair
  | cons next rest =>
      rw [Item.locateAll, List.cons_prefix_cons] at hpair
      have hrun := isRun_of_locate hr.symm
      obtain ⟨hblank, htext⟩ := isRun_apart (h.2.1 next rfl) hrun (isRun_of_locate hpair.1.symm)
      rw [locate_run hrun, Node.leaf.injEq, Leaf.charData.injEq] at hr
      rw [hr] at hrs
      exact ⟨next, rfl, meets_iff.2 ⟨hblank, htext, hrs.2⟩⟩

theorem meets_runAt {src : Source} {item next : Item} (h : item.meets next = true) (n : Nat) :
    (item.runAt src n).Meets (next.runAt src (n + item.text.length)) := by
  refine ⟨?_, (meets_iff.1 h).2.2⟩
  simp [Item.runAt, Source.span]

/-- Preserved nodes in groups, each with its fragment. Runs that meet are not torn apart. -/
structure Gathering (job : Job) (nodes : List Node) (groups : List (List Node)) (fs : List Fragment) : Prop where
  perm : (kindFragments job true nodes).Perm fs
  flatten : groups.flatten = nodes
  gathers : List.Forall₂ (Gathers job) groups fs
  merged : ∀ r s, [.leaf (.charData r), .leaf (.charData s)] <:+: nodes → r.Meets s →
    [.leaf (.charData r), .leaf (.charData s)] ∈ groups

namespace Gathering

variable {job : Job} {src : Source} {pre post : Text} {item next : Item} {rest : List Item}
  {groups : List (List Node)} {fs : List Fragment}

theorem nil : Gathering job [] [] [] where
  perm := by simp [kindFragments, charDataFragments, preservedRuns]
  flatten := rfl
  gathers := .nil
  merged := by simp

/-- Two runs that meet are put in front. -/
theorem pair (h : Item.WellFormedAll (item :: next :: rest)) (hmeets : item.meets next = true)
    (hsrc : src = Source.ofText (pre ++ (Item.textAll (item :: next :: rest) ++ post)))
    (hrest : Gathering job (Item.locateAll src (pre.length + item.text.length + next.text.length) rest) groups fs) :
    ∃ nodes f, Gathering job (Item.locateAll src pre.length (item :: next :: rest)) (nodes :: groups) (f :: fs) := by
  obtain ⟨hblank, htext, -⟩ := meets_iff.1 hmeets
  have hitem : item.locate src pre.length = .leaf (.charData (item.runAt src pre.length)) :=
    locate_run (by simp [Item.isRun, hblank])
  have hnext : next.locate src (pre.length + item.text.length) =
      .leaf (.charData (next.runAt src (pre.length + item.text.length))) :=
    locate_run (by simp [Item.isRun, htext])
  have hperm := (@kindFragments_pair job _ _ _ _ _ _ h hmeets hsrc).trans (hrest.perm.cons _)
  have htail := wellFormedAll_tail h
  rw [Item.locateAll, Item.locateAll, hitem, hnext] at hperm ⊢
  refine ⟨_, _, hperm, ?_, .cons (.runs (meets_runAt hmeets _)) hrest.gathers, fun r s hpair hrs => ?_⟩
  · rw [List.flatten_cons, hrest.flatten]
    rfl
  · rw [List.infix_cons_iff, List.infix_cons_iff] at hpair
    rcases hpair with hpair | hpair | hpair
    · rw [List.cons_prefix_cons, List.cons_prefix_cons] at hpair
      rw [hpair.1, hpair.2.1]
      exact List.mem_cons_self
    · -- nothing meets the text that ends the pair
      obtain ⟨third, -, hmeets'⟩ := meets_of_locateAll htail (by rwa [Item.locateAll, hnext]) hrs
      rw [meets_of_isText htext] at hmeets'
      cases hmeets'
    · exact List.mem_cons_of_mem _ (hrest.merged r s hpair hrs)

/-- An item that does not meet the next one is put in front. -/
theorem single (h : Item.WellFormedAll (item :: rest)) (hmeets : ∀ next ∈ rest.head?, item.meets next = false)
    (hsrc : src = Source.ofText (pre ++ (Item.textAll (item :: rest) ++ post)))
    (hrest : Gathering job (Item.locateAll src (pre.length + item.text.length) rest) groups fs) :
    ∃ nodes f, Gathering job (Item.locateAll src pre.length (item :: rest)) (nodes :: groups) (f :: fs) := by
  have hperm := (@kindFragments_single job _ _ _ _ _ h hmeets hsrc).trans (hrest.perm.cons _)
  refine ⟨_, _, hperm, ?_, .cons (.child _) hrest.gathers, fun r s hpair hrs => ?_⟩
  · rw [List.flatten_cons, hrest.flatten, Item.locateAll]
    rfl
  · rw [Item.locateAll, List.infix_cons_iff] at hpair
    rcases hpair with hpair | hpair
    · obtain ⟨next, hnext, hmeets'⟩ := meets_of_locateAll h (by rwa [Item.locateAll]) hrs
      rw [hmeets next hnext] at hmeets'
      cases hmeets'
    · exact List.mem_cons_of_mem _ (hrest.merged r s hpair hrs)

end Gathering

/-- Preserved children that stand in a text can be put in groups. -/
theorem exists_gathering (job : Job) {src : Source} {items : List Item} (h : Item.WellFormedAll items)
    {pre post : Text} (hsrc : src = Source.ofText (pre ++ (Item.textAll items ++ post))) :
    ∃ groups fs, Gathering job (Item.locateAll src pre.length items) groups fs := by
  induction items using pieces_induct job.style.markers false generalizing pre with
  | nil =>
      rw [Item.locateAll]
      exact ⟨[], [], .nil⟩
  | range item rest hrange => simp at hrange
  | pair item next rest _ hmeets ih =>
      have hsrc' : src = Source.ofText ((pre ++ item.text ++ next.text) ++ (Item.textAll rest ++ post)) := by
        rw [hsrc]
        simp [Item.textAll]
      obtain ⟨groups, fs, hrest⟩ := ih (wellFormedAll_tail (wellFormedAll_tail h)) hsrc'
      rw [List.length_append, List.length_append] at hrest
      obtain ⟨nodes, f, hpair⟩ := hrest.pair h hmeets hsrc
      exact ⟨_, _, hpair⟩
  | single item rest _ hmeets ih =>
      have hsrc' : src = Source.ofText ((pre ++ item.text) ++ (Item.textAll rest ++ post)) := by
        rw [hsrc]
        simp [Item.textAll]
      obtain ⟨groups, fs, hrest⟩ := ih (wellFormedAll_tail h) hsrc'
      rw [List.length_append] at hrest
      obtain ⟨nodes, f, hsingle⟩ := hrest.single h hmeets hsrc
      exact ⟨_, _, hsingle⟩

/-! ### Children side by side -/

theorem Span.Tile.first_le_last {spans : List Span} {first last : Int} (h : Tile first spans last) {s : Span}
    (hs : s ∈ spans) : (s.first : Int) ≤ s.last := by
  induction spans generalizing first with
  | nil => cases hs
  | cons s' rest ih =>
      obtain ⟨hfirst, hlast, hrest⟩ := h
      rcases List.mem_cons.1 hs with rfl | hs
      · omega
      · exact ih hrest hs

/-- Of nodes that lie side by side, one that starts where another one ends is the next one. -/
theorem Span.Tile.neighbours {nodes : List Node} {first last : Int} (h : Tile first (nodes.map Node.span) last)
    {a b : Node} (ha : a ∈ nodes) (hb : b ∈ nodes) (hab : (b.span.first : Int) = a.span.last + 1) :
    [a, b] <:+: nodes := by
  induction nodes generalizing first with
  | nil => cases ha
  | cons node nodes ih =>
      have hne : (a.span.first : Int) ≤ a.span.last := h.first_le_last (List.mem_map_of_mem ha)
      obtain ⟨hfirst, hlast, hrest⟩ := h
      have hbehind : ∀ next ∈ nodes, node.span.last + 1 ≤ next.span.first := fun next hnext =>
        hrest.pairwise.2 _ (List.mem_map_of_mem hnext)
      rw [List.infix_cons_iff]
      rcases List.mem_cons.1 hb with rfl | hb'
      · rcases List.mem_cons.1 ha with rfl | ha
        · omega
        · have := hbehind a ha
          omega
      · rcases List.mem_cons.1 ha with rfl | ha
        · left
          cases nodes with
          | nil => cases hb'
          | cons next rest =>
              obtain ⟨hnext, hnextLast, hbeyond⟩ := hrest
              rcases List.mem_cons.1 hb' with rfl | hb'
              · simp
              · have := hbeyond.pairwise.2 _ (List.mem_map_of_mem hb')
                omega
        · exact .inr (ih hrest ha hb')

/-! ### The text of the fragments -/

namespace Content

/-- What a fragment stands for in a text: an element for itself, anything else for what is printed. -/
def written (t : Text) (c : Content) (f : Fragment) : Text :=
  if f.kind = .element then
    (c.elements.find? fun e => e.tag.span.first = f.offset).elim [] fun e => e.tag.span.textIn t
  else f.printed.literal

variable {t : Text} {c : Content} {job : Job}

theorem written_element (horder : c.children.Pairwise fun a b => a.span.first < b.span.first) {tag : Tag}
    {children : List Node} (hmem : .element tag children ∈ c.children) (doc : Doc) :
    c.written t (.ofElement tag doc) = tag.span.textIn t := by
  have hkind : (Fragment.ofElement tag doc).kind = .element := rfl
  have hoffset : (Fragment.ofElement tag doc).offset = tag.span.first := rfl
  rw [written, if_pos hkind, hoffset]
  have helement : (⟨tag, children⟩ : Element) ∈ c.elements := List.mem_filterMap.2 ⟨_, hmem, rfl⟩
  cases hfind : c.elements.find? fun e => (e.tag.span.first : Int) = tag.span.first with
  | none => simpa using List.find?_eq_none.1 hfind _ helement
  | some e =>
      obtain ⟨node, hnode, hsome⟩ := List.mem_filterMap.1 (List.mem_of_find?_eq_some hfind)
      have hfirst := List.find?_some hfind
      rw [decide_eq_true_iff, Int.ofNat_inj] at hfirst
      cases node with
      | leaf l => cases hsome
      | element tag' children' =>
          cases hsome
          have heq := eq_of_key_eq horder hnode hmem hfirst
          cases heq
          rfl

theorem written_leaf {l : Leaf} (himage : l.image = l.span.textIn t) :
    c.written t (leafFragment true l) = l.span.textIn t := by
  rw [← himage]
  cases l with
  | charData run => exact Doc.literal_verbatim run.image
  | _ => rfl

theorem written_gathers (horder : c.children.Pairwise fun a b => a.span.first < b.span.first)
    (himage : ∀ l, .leaf l ∈ c.children → l.image = l.span.textIn t) {nodes : List Node} {f : Fragment}
    (h : Gathers job nodes f) (hmem : ∀ node ∈ nodes, node ∈ c.children) :
    c.written t f = nodes.flatMap fun node => node.span.textIn t := by
  cases h with
  | child node =>
      rw [List.flatMap_singleton]
      have hnode := hmem node List.mem_cons_self
      cases node with
      | element tag children => exact written_element horder hnode _
      | leaf l => exact written_leaf (himage l hnode)
  | @runs r s h =>
      have hr : r.image = r.span.textIn t := himage (.charData r) (hmem _ (by simp))
      have hs : s.image = s.span.textIn t := himage (.charData s) (hmem _ (by simp))
      have hliteral : c.written t ((Fragment.ofPreserved r).extend s) =
          (Doc.verbatim r.image).literal ++ ((Doc.verbatim s.image).literal ++ []) := rfl
      rw [hliteral, Doc.literal_verbatim, Doc.literal_verbatim, hr, hs]
      rfl

theorem flatMap_written (horder : c.children.Pairwise fun a b => a.span.first < b.span.first)
    (himage : ∀ l, .leaf l ∈ c.children → l.image = l.span.textIn t) {groups : List (List Node)} {fs : List Fragment}
    (h : List.Forall₂ (Gathers job) groups fs) (hmem : ∀ node ∈ groups.flatten, node ∈ c.children) :
    fs.flatMap (c.written t) = groups.flatten.flatMap fun node => node.span.textIn t := by
  induction h with
  | nil => rfl
  | cons hgathers _ ih =>
      rw [List.flatten_cons, List.forall_mem_append] at hmem
      rw [List.flatMap_cons, List.flatten_cons, List.flatMap_append, ih hmem.2,
        written_gathers horder himage hgathers hmem.1]

end Content

/-- Nodes that stand in a text spell it out. -/
theorem flatMap_textIn_locateAll (src : Source) {t pre post : Text} {items : List Item}
    (h : t = pre ++ (Item.textAll items ++ post)) :
    ((Item.locateAll src pre.length items).flatMap fun node => node.span.textIn t) = Item.textAll items := by
  induction items generalizing pre with
  | nil => simp [Item.locateAll, Item.textAll]
  | cons item items ih =>
      have hitem : t = pre ++ (item.text ++ (Item.textAll items ++ post)) := by
        rw [h]
        simp [Item.textAll]
      have hrest := @ih (pre ++ item.text) (by rw [hitem, List.append_assoc])
      rw [List.length_append] at hrest
      rw [Item.locateAll, List.flatMap_cons, hrest, span_locate, Text.textIn_span hitem src rfl rfl, Item.textAll]

/-! ### The fragments of a content -/

namespace Content

/-- The fragments of a content, with its elements laid out. -/
def collected (job : Job) (preserve : Bool) (c : Content) : List Fragment :=
  c.fragments job.style preserve (Node.elementFragments job c.children)

/-- Whether runs are kept as they were written. -/
def isPreserved (style : Style) (preserve : Bool) (c : Content) : Bool :=
  preserve || (style.sensitivity = .preserve && c.hasText)

/-- Children in groups, in order: two runs that meet are a group, and any other child is alone. -/
structure Grouped (c : Content) (groups : List (List Node)) : Prop where
  flatten : groups.flatten = c.children
  size : ∀ nodes ∈ groups,
    (∃ node, nodes = [node]) ∨ ∃ r s, nodes = [.leaf (.charData r), .leaf (.charData s)]
  runs : ∀ r ∈ c.charData, ∀ s ∈ c.charData,
    [.leaf (.charData r), .leaf (.charData s)] ∈ groups ↔ r.Meets s

/-- Content that stands in a text. -/
theorem exists_items_of_content {t pre post : Text} {src : Source} {item : Item} (hitem : item.WellFormed)
    (h : t = pre ++ (item.text ++ post)) {e : Element} (he : item.locate src pre.length = e.toNode) {c : Content}
    (hc : e.content? = some c) : ∃ (pre : Text) (items : List Item) (post : Text), Item.WellFormedAll items ∧
      t = pre ++ (Item.textAll items ++ post) ∧
      c = ⟨Item.locateAll src pre.length items, src.span pre.length (pre.length + (Item.textAll items).length)⟩ := by
  obtain ⟨eTag, eChildren⟩ := e
  cases item with
  | leaf cls image => cases he
  | empty tag =>
      rw [Item.locate, Element.toNode, Node.element.injEq] at he
      obtain ⟨rfl, rfl⟩ := he
      cases hc
  | full tag children endTail =>
      rw [Item.WellFormed] at hitem
      rw [Item.locate, Element.toNode, Node.element.injEq] at he
      obtain ⟨rfl, rfl⟩ := he
      have hlength : pre.length + (tag.text.length + 1) = (pre ++ (tag.text ++ ['>'])).length := by simp
      refine ⟨pre ++ (tag.text ++ ['>']), children, Item.endTag tag.name endTail ++ post, hitem.2.1, ?_, ?_⟩
      · rw [h, Item.text]
        simp
      · cases hc
        rw [hlength]

end Content

namespace Content

theorem collected_of_not_preserved {job : Job} {preserve : Bool} {c : Content}
    (horder : c.children.Pairwise fun a b => a.span.first < b.span.first)
    (h : c.isPreserved job.style preserve = false) :
    c.collected job preserve = c.children.map fun node => nodeFragment false (node.layout job) node := by
  rw [isPreserved] at h
  rw [collected, fragments_eq, h]
  exact sortedBy_eq_of_perm (kindFragments_flow job c.children).symm (inOrder_flow job horder)

/-- Of children side by side, those that meet are neighbours. -/
theorem grouped_of_gathering {job : Job} {c : Content} {first last : Int}
    (htile : Span.Tile first (c.children.map Node.span) last) {groups : List (List Node)} {fs : List Fragment}
    (h : Gathering job c.children groups fs) : c.Grouped groups := by
  have hmem : ∀ {run : CharData}, run ∈ c.charData → .leaf (.charData run) ∈ c.children := by
    intro run hrun
    obtain ⟨node, hnode, hsome⟩ := List.mem_filterMap.1 hrun
    rwa [← Node.eq_of_charData? hsome]
  refine ⟨h.flatten, fun nodes hnodes => ?_, fun r hr s hs => ⟨fun hpair => ?_, fun hrs => ?_⟩⟩
  · rcases Gathers.size h.gathers hnodes with hsingle | ⟨r, s, -, hpair⟩
    · exact .inl hsingle
    · exact .inr ⟨r, s, hpair⟩
  · rcases Gathers.size h.gathers hpair with ⟨node, hnode⟩ | ⟨r', s', hrs, hpair⟩
    · cases hnode
    · cases hpair
      exact hrs
  · exact h.merged r s (htile.neighbours (hmem hr) (hmem hs) hrs.1) hrs

/-- Where runs are preserved, the fragments of children that stand in a text are those of their groups. -/
theorem exists_grouped {job : Job} {preserve : Bool} {t pre post : Text} {items : List Item}
    (hitems : Item.WellFormedAll items) (htext : t = pre ++ (Item.textAll items ++ post)) {c : Content}
    (hchildren : c.children = Item.locateAll (Source.ofText t) pre.length items)
    (h : c.isPreserved job.style preserve = true) :
    ∃ groups, c.Grouped groups ∧ List.Forall₂ (Gathers job) groups (c.collected job preserve) := by
  obtain ⟨groups, fs, hgathering⟩ := exists_gathering job hitems (congrArg Source.ofText htext)
  have htile := tile_locateAll (Source.ofText t) hitems pre.length
  have horder := increasing_locateAll (Source.ofText t) hitems pre.length
  rw [← hchildren] at hgathering htile horder
  have hinOrder : InOrder fs := by
    refine (inOrder_of_covers (hgathering.gathers.imp fun _ _ h => h.covers) ?_).1
    rwa [hgathering.flatten]
  have hcollected : c.collected job preserve = fs := by
    rw [isPreserved] at h
    rw [collected, fragments_eq, h]
    exact sortedBy_eq_of_perm hgathering.perm.symm hinOrder
  rw [hcollected]
  exact ⟨groups, grouped_of_gathering htile hgathering, hgathering.gathers⟩

end Content

/-- The fragments of the children of an element that was read come in the order of their offsets, and no two of them
start at one place. Without preservation each child has its own. With it, two runs share one exactly if the second
one starts right behind the first one and that does not end in a newline, and the fragments spell out the text of
the content, with elements as they stand there. -/
theorem Document.read_fragments {t : Text} {d : Document} (h : read t = .ok d) {e : Element} (he : e ∈ d.elements)
    {c : Content} (hc : e.content? = some c) (job : Job) (preserve : Bool) :
    InOrder (c.collected job preserve) ∧
      (c.isPreserved job.style preserve = false →
        List.Forall₂ (fun node f => f.Covers [node]) c.children (c.collected job preserve)) ∧
      (c.isPreserved job.style preserve = true →
        (∃ groups, c.Grouped groups ∧
          List.Forall₂ (fun nodes f => f.Covers nodes) groups (c.collected job preserve)) ∧
        (c.collected job preserve).flatMap (c.written t) = c.span.textIn t) := by
  obtain ⟨w, hw, rfl, rfl⟩ := exists_spelling h
  obtain ⟨_, item, _, hitem, hplace, hlocate⟩ := exists_item_of_mem_elements hw he
  obtain ⟨pre, items, post, hitems, htext, hcontent⟩ := Content.exists_items_of_content hitem hplace hlocate hc
  have hchildren : c.children = Item.locateAll (Source.ofText w.text) pre.length items := by rw [hcontent]
  have horder := increasing_locateAll (Source.ofText w.text) hitems pre.length
  rw [← hchildren] at horder
  cases hpreserved : c.isPreserved job.style preserve with
  | false =>
      rw [Content.collected_of_not_preserved horder hpreserved]
      refine ⟨inOrder_flow job horder, fun _ => ?_, by simp⟩
      exact List.forall₂_map_right_iff.2 (List.forall₂_same.2 fun node _ => covers_nodeFragment false _ node)
  | true =>
      obtain ⟨groups, hgrouped, hgathers⟩ := Content.exists_grouped hitems htext hchildren hpreserved
      have hcovers := hgathers.imp fun _ _ h => h.covers
      refine ⟨(inOrder_of_covers hcovers (by rwa [hgrouped.flatten])).1, by simp, fun _ => ?_⟩
      refine ⟨⟨groups, hgrouped, hcovers⟩, ?_⟩
      have himage : ∀ l, .leaf l ∈ c.children → l.image = l.span.textIn w.text := fun l hl =>
        image_of_mem_locateAll htext (hchildren ▸ hl)
      rw [Content.flatMap_written horder himage hgathers (by simp [hgrouped.flatten]), hgrouped.flatten, hchildren,
        flatMap_textIn_locateAll _ htext, hcontent]
      exact (Text.textIn_span htext _ rfl rfl).symm

/-- Two runs that meet, and two with a newline between them. -/
def Document.mingledText : Text := "<a> x<b/>\ny</a>".toList

/-- Two of its five children share a fragment where runs are preserved, and none do where they are not. -/
theorem Document.read_fragments_mingled :
    ∃ d e c, read mingledText = .ok d ∧ e ∈ d.elements ∧ e.content? = some c ∧ c.children.length = 5 ∧
      (c.collected {} false).length = 5 ∧ InOrder (c.collected {} true) ∧
      (c.collected {} true).flatMap (c.written mingledText) = c.span.textIn mingledText ∧
      ∃ groups, c.Grouped groups ∧ List.Forall₂ (fun nodes f => f.Covers nodes) groups (c.collected {} true) ∧
        ∃ r s, [.leaf (.charData r), .leaf (.charData s)] ∈ groups := by
  obtain ⟨d, hread, htest⟩ := @exists_ok_of_any _ _ (read mingledText) (fun d => d.root.any fun e : Element =>
    e.content?.any fun c => c.children.length == 5 && !c.isPreserved {} false &&
      c.charData.any fun r => c.charData.any fun s => decide (r.Meets s)) (by decide +kernel)
  rw [Option.any_eq_true] at htest
  obtain ⟨e, he, htest⟩ := htest
  have hmem : e ∈ d.elements := by
    simp [elements, he, Element.toNode, Node.elements]
  rw [Option.any_eq_true] at htest
  obtain ⟨c, hc, htest⟩ := htest
  simp only [Bool.and_eq_true, beq_iff_eq, Bool.not_eq_true', List.any_eq_true, decide_eq_true_iff] at htest
  obtain ⟨⟨hlength, hflows⟩, r, hr, s, hs, hmeets⟩ := htest
  obtain ⟨horder, -, hpreserved⟩ := read_fragments hread hmem hc {} true
  obtain ⟨⟨groups, hgrouped, hcovers⟩, htext⟩ := hpreserved rfl
  have hflow := (read_fragments hread hmem hc {} false).2.1 hflows
  exact ⟨d, e, c, hread, hmem, hc, hlength, hflow.length_eq.symm.trans hlength, horder, htext, groups, hgrouped,
    hcovers, r, s, (hgrouped.runs r hr s hs).2 hmeets⟩

end XmlTidy
