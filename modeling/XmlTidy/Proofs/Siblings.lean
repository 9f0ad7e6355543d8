import XmlTidy.Proofs.KeptChildren

/-!
Siblings, and what is printed between them. Two children of an element are siblings if nothing but blanks stands
between them, where blanks at the end of a text count as standing behind it. The siblings among children that
stand in a text are the neighbours among the items that the children are spelled as, so what holds of the
blanks between neighbours holds of the blanks between siblings. Each child but blanks has its lead: the sibling
before it, if there is one, and the blanks in front of it.
-/

namespace XmlTidy

namespace Node

def isText : Node → Bool
  | .leaf (.charData run) => !run.blank
  | _ => false

/-- Whether a node flows with the text around it. -/
def isInline : Node → Bool
  | .leaf (.charData run) => !run.blank
  | .leaf (.reference _) => true
  | _ => false

/-- How wide a node that flows is on one line, unless it has several. -/
def room : Node → Option Nat
  | .leaf (.charData run) => textRoom run.image
  | .leaf l => some l.image.width
  | .element .. => none

/-- The blanks at the end of character data. -/
def endBlanks : Node → Text
  | .leaf (.charData run) => run.image.endBlanks
  | _ => []

end Node

/-- Two nodes, and the blanks that stand between them. -/
structure Siblings where
  left : Node
  blanks : Text
  right : Node
deriving Repr

/-- Text or references with nothing between them. -/
def Siblings.Glued (s : Siblings) : Prop := s.left.isInline = true ∧ s.right.isInline = true ∧ s.blanks = []

instance : DecidablePred Siblings.Glued := fun _ => inferInstanceAs (Decidable (_ ∧ _ ∧ _))

namespace Node

/-- The siblings among a node and those behind it, with blanks behind the first. -/
def siblingsFrom (left : Node) (blanks : Text) : List Node → List Siblings
  | [] => []
  | .leaf (.charData ⟨image, true, _⟩) :: rest => siblingsFrom left (blanks ++ image) rest
  | node :: rest => ⟨left, blanks, node⟩ :: siblingsFrom node node.endBlanks rest

/-- The siblings among nodes that stand one behind the other. -/
def siblings : List Node → List Siblings
  | [] => []
  | .leaf (.charData ⟨_, true, _⟩) :: rest => siblings rest
  | node :: rest => siblingsFrom node node.endBlanks rest

theorem siblingsFrom_cons {node : Node} (h : node.isBlankRun = false) (left : Node) (blanks : Text) (rest : List Node) :
    siblingsFrom left blanks (node :: rest) = ⟨left, blanks, node⟩ :: siblingsFrom node node.endBlanks rest := by
  rw [siblingsFrom]
  rintro image span rfl
  cases h

theorem siblings_cons {node : Node} (h : node.isBlankRun = false) (rest : List Node) :
    siblings (node :: rest) = siblingsFrom node node.endBlanks rest := by
  rw [siblings]
  rintro image span rfl
  cases h

end Node

def Element.siblings (e : Element) : List Siblings := Node.siblings e.children

/-- A child with what stands before it: the sibling, if there is one, and the blanks behind that or behind the open
tag. -/
structure Lead where
  previous : Option Node
  blanks : Text
  node : Node
deriving Repr

def Lead.behindText (l : Lead) : Bool := l.previous.any Node.isText

def Siblings.lead (s : Siblings) : Lead := ⟨some s.left, s.blanks, s.right⟩

namespace Node

/-- The leads of nodes behind a node and blanks. -/
def leadsFrom (previous : Option Node) (blanks : Text) : List Node → List Lead
  | [] => []
  | .leaf (.charData ⟨image, true, _⟩) :: rest => leadsFrom previous (blanks ++ image) rest
  | node :: rest => ⟨previous, blanks, node⟩ :: leadsFrom (some node) node.endBlanks rest

theorem leadsFrom_cons {node : Node} (h : node.isBlankRun = false) (previous : Option Node) (blanks : Text)
    (rest : List Node) :
    leadsFrom previous blanks (node :: rest) = ⟨previous, blanks, node⟩ :: leadsFrom (some node) node.endBlanks rest := by
  rw [leadsFrom]
  rintro image span rfl
  cases h

/-- Behind a node, the leads are those of its siblings. -/
theorem leadsFrom_some (left : Node) (blanks : Text) (nodes : List Node) :
    leadsFrom (some left) blanks nodes = (siblingsFrom left blanks nodes).map Siblings.lead := by
  fun_induction siblingsFrom left blanks nodes with
  | case1 => rfl
  | case2 left blanks image span rest ih => exact ih
  | case3 left blanks node rest hnot ih =>
      rw [leadsFrom, ih]
      · rfl
      · exact hnot

end Node

/-- The leads of the children of an element. -/
def Element.leads (e : Element) : List Lead := Node.leadsFrom none [] e.children

/-- The blank lines among blanks: lines that hold nothing else from their start to their end. -/
def Text.blankLines (t : Text) : Nat := t.count '\n' - 1

namespace Spelled

open Printed

/-! ### Siblings that are spelled -/

section Locate

variable (src : Source) (n : Nat) (item : Item)

theorem isText_locate : (item.locate src n).isText = item.isText := by
  cases item with
  | leaf cls image => cases cls <;> rfl
  | empty tag => rw [Item.locate]; rfl
  | full tag children endTail => rw [Item.locate]; rfl

theorem isInline_locate : (item.locate src n).isInline = item.isInline := by
  cases item with
  | leaf cls image => cases cls <;> rfl
  | empty tag => rw [Item.locate]; rfl
  | full tag children endTail => rw [Item.locate]; rfl

theorem room_locate (h : item.isInline = true) : (item.locate src n).room = item.room := by
  cases item with
  | leaf cls image => cases cls <;> first | rfl | cases h
  | empty tag => cases h
  | full tag children endTail => cases h

theorem comment?_locate :
    (item.locate src n).comment?.map Token.image = if item.isComment then some item.text else none := by
  cases item with
  | leaf cls image => cases cls <;> rfl
  | empty tag => rw [Item.locate]; rfl
  | full tag children endTail => rw [Item.locate]; rfl

theorem endBlanks_locate (h : item.isBlankRun = false) : (item.locate src n).endBlanks = item.endBlanks := by
  cases item with
  | leaf cls image => cases cls <;> first | rfl | cases h
  | empty tag => rw [Item.locate]; rfl
  | full tag children endTail => rw [Item.locate]; rfl

end Locate

/-- Siblings that are spelled as neighbours in a text, which stands behind a number of characters. -/
structure Neighbours.Found (src : Source) (n : Nat) (text : Text) (nb : Neighbours) (s : Siblings) : Prop where
  upTo : nb.before ++ (nb.left.text ++ nb.gap) <+: text
  left : s.left = nb.left.locate src (n + nb.before.length)
  blanks : s.blanks = nb.blanks
  right : s.right = nb.right.locate src (n + (nb.before ++ (nb.left.text ++ nb.gap)).length)
  wellFormed : nb.left.WellFormed
  solid : nb.left.isBlankRun = false ∧ nb.right.isBlankRun = false
  tied : nb.left.isText = true → nb.gap = []

theorem Neighbours.Found.before {src : Source} {n : Nat} {text : Text} {nb : Neighbours} {s : Siblings}
    (h : nb.Found src n text s) : nb.before <+: text := (List.prefix_append _ _).trans h.upTo

/-- An item that is more than blanks, and the blanks at its end. -/
theorem Item.exists_solid {item : Item} (h : item.WellFormed) (hblank : item.isBlankRun = false) :
    item.text.dropEndWhile isBlank ++ item.endBlanks = item.text ∧ EndsSolid (item.text.dropEndWhile isBlank) := by
  cases htext : item.isText with
  | false =>
      obtain ⟨t, c, heq, hc⟩ := exists_last h hblank htext
      have hsolid : isBlank c = false := by rcases hc with rfl | rfl <;> rfl
      have hself : item.text.dropEndWhile isBlank = t ++ [c] := by simp [heq, Text.dropEndWhile, hsolid]
      rw [Item.endBlanks_of_not_text htext, hself, heq]
      exact ⟨List.append_nil _, t, c, rfl, hsolid⟩
  | true =>
      obtain ⟨image, rfl⟩ := exists_of_isText htext
      rw [Item.WellFormed] at h
      refine ⟨image.dropEndWhile_append_endBlanks, ?_⟩
      obtain ⟨first, rest, rfl⟩ := List.exists_cons_of_ne_nil h.1
      have hfirst : isBlank first = false := stops_cons.1 h.2.1
      have hne : (first :: rest).reverse.dropWhile isBlank ≠ [] := by simp [hfirst]
      obtain ⟨c, t, hdrop⟩ := List.exists_cons_of_ne_nil hne
      have hc := List.head?_dropWhile_not isBlank (first :: rest).reverse
      rw [hdrop] at hc
      refine ⟨t.reverse, c, ?_, by simpa using hc⟩
      rw [Item.text, Text.dropEndWhile, hdrop, List.reverse_cons]

/-- What stands before the second of two siblings ends with the blanks between them. -/
theorem Neighbours.Found.front_append {src : Source} {n : Nat} {text : Text} {nb : Neighbours} {s : Siblings}
    (h : nb.Found src n text s) : nb.front ++ s.blanks = nb.before ++ (nb.left.text ++ nb.gap) := by
  rw [h.blanks, Neighbours.front, Neighbours.blanks, List.append_assoc, ← List.append_assoc _ _ nb.gap,
    (Item.exists_solid h.wellFormed h.solid.1).1]

theorem not_blank_of_apart {image : Text} {next : Item} (h : (Item.leaf .blank image).Apart next) :
    next.isBlankRun = false := by
  cases next with
  | leaf cls image' => cases cls <;> first | rfl | exact h.elim
  | _ => rfl

/-- No blanks stand behind a text. -/
theorem not_blank_behind {item : Item} {rest : List Item} (h : ∀ next ∈ rest.head?, item.Apart next) :
    ([] : Text) ≠ [] ∨ item.isText = true → ∀ next ∈ rest.head?, next.isBlankRun = false := by
  rintro (hne | htext) next hnext
  · exact absurd rfl hne
  · obtain ⟨image, rfl⟩ := exists_of_isText htext
    exact (not_text_of_apart (h next hnext)).1

section Found

variable {src : Source} {n : Nat}

/-- Behind an item that stands in a text, the siblings are the neighbours. No two runs of blanks stand next to each
other, and none stands behind a text. -/
theorem found_siblingsFrom {left : Item} (hleft : left.WellFormed) (hsolid : left.isBlankRun = false) {gap : Text}
    {items : List Item} (hitems : Item.WellFormedAll items)
    (hgap : gap ≠ [] ∨ left.isText = true → ∀ next ∈ items.head?, next.isBlankRun = false)
    (htied : left.isText = true → gap = []) (before : Text) :
    List.Forall₂ (Neighbours.Found src n (before ++ (left.text ++ (gap ++ Item.textAll items))))
      (neighboursFrom before left (entries gap items))
      (Node.siblingsFrom (left.locate src (n + before.length)) (left.endBlanks ++ gap)
        (Item.locateAll src (n + (before ++ (left.text ++ gap)).length) items)) := by
  fun_induction entries gap items generalizing before left with
  | case1 gap => exact .nil
  | case2 gap image rest ih =>
      have hrest := hitems
      rw [Item.WellFormedAll] at hrest
      obtain ⟨-, hapart, hrest⟩ := hrest
      have hnot : ¬(gap ≠ [] ∨ left.isText = true) := fun h => Bool.noConfusion (hgap h _ rfl)
      rw [not_or, not_not] at hnot
      obtain ⟨rfl, htext⟩ := hnot
      have hih := ih hleft hsolid hrest (fun _ next hnext => not_blank_of_apart (hapart next hnext))
        (fun h => absurd h htext) before
      have hlength : n + (before ++ (left.text ++ image)).length =
          n + (before ++ (left.text ++ [])).length + (Item.leaf .blank image).text.length := by
        simp [Item.text, Nat.add_assoc]
      rw [hlength] at hih
      rw [List.append_nil]
      exact hih
  | case3 gap item rest hne ih =>
      have hblank : item.isBlankRun = false := by
        cases item with
        | leaf cls image => cases cls <;> first | rfl | exact absurd rfl (hne image)
        | _ => rfl
      rw [Item.WellFormedAll] at hitems
      obtain ⟨hitem, hapart, hrest⟩ := hitems
      rw [neighboursFrom, Item.locateAll, Node.siblingsFrom_cons ((isBlankRun_locate ..).trans hblank),
        endBlanks_locate _ _ _ hblank]
      refine .cons ⟨⟨Item.textAll (item :: rest), by simp⟩, rfl, rfl, rfl, hleft, ⟨hsolid, hblank⟩, htied⟩ ?_
      have hih := ih hitem hblank hrest (not_blank_behind hapart) (fun _ => rfl) (before ++ (left.text ++ gap))
      have hlength : n + (before ++ (left.text ++ gap) ++ (item.text ++ [])).length =
          n + (before ++ (left.text ++ gap)).length + item.text.length := by
        simp [Nat.add_assoc]
      have htext : before ++ (left.text ++ gap) ++ (item.text ++ ([] ++ Item.textAll rest)) =
          before ++ (left.text ++ (gap ++ Item.textAll (item :: rest))) := by
        simp [Item.textAll]
      rwa [hlength, htext, List.append_nil] at hih

theorem found_siblings_cons {item : Item} {rest : List Item} (h : Item.WellFormedAll (item :: rest))
    (hblank : item.isBlankRun = false) (gap : Text) :
    List.Forall₂ (Neighbours.Found src n (gap ++ Item.textAll (item :: rest)))
      (neighbours [] (entries gap (item :: rest)))
      (Node.siblings (Item.locateAll src (n + gap.length) (item :: rest))) := by
  rw [Item.WellFormedAll] at h
  obtain ⟨hitem, hapart, hrest⟩ := h
  rw [entries_cons gap hblank, neighbours, Item.locateAll, Node.siblings_cons ((isBlankRun_locate ..).trans hblank),
    endBlanks_locate _ _ _ hblank]
  have hfound := @found_siblingsFrom src n _ hitem hblank [] rest hrest (not_blank_behind hapart) (fun _ => rfl) gap
  rwa [List.append_nil, List.append_nil, List.length_append, ← Nat.add_assoc] at hfound

/-- Well-formed items start with one run of blanks at most. -/
theorem leading_cases {items : List Item} (h : Item.WellFormedAll items) :
    items = [] ∨ (∃ image, items = [.leaf .blank image]) ∨
      ∃ item rest, item.isBlankRun = false ∧ Item.WellFormedAll (item :: rest) ∧
        (items = item :: rest ∨ ∃ image, items = .leaf .blank image :: item :: rest) := by
  cases items with
  | nil => exact .inl rfl
  | cons item rest =>
      cases hblank : item.isBlankRun with
      | false => exact .inr (.inr ⟨item, rest, hblank, h, .inl rfl⟩)
      | true =>
          obtain ⟨image, rfl⟩ := exists_of_isBlankRun hblank
          rw [Item.WellFormedAll] at h
          obtain ⟨-, hapart, hrest⟩ := h
          cases rest with
          | nil => exact .inr (.inl ⟨image, rfl⟩)
          | cons next rest =>
              exact .inr (.inr ⟨next, rest, not_blank_of_apart (hapart next rfl), hrest, .inr ⟨image, rfl⟩⟩)

/-- The siblings among items that stand in a text are their neighbours. -/
theorem found_siblings {items : List Item} (h : Item.WellFormedAll items) :
    List.Forall₂ (Neighbours.Found src n (Item.textAll items)) (neighbours [] (entries [] items))
      (Node.siblings (Item.locateAll src n items)) := by
  rcases leading_cases h with rfl | ⟨image, rfl⟩ | ⟨item, rest, hblank, hwf, rfl | ⟨image, rfl⟩⟩
  · exact .nil
  · exact .nil
  · exact found_siblings_cons hwf hblank []
  · rw [entries_blank]
    exact found_siblings_cons hwf hblank image

/-- The lead of an entry in front of which no other stands. -/
def Entry.lead (src : Source) (n : Nat) (e : Entry) : Lead := ⟨none, e.gap, e.item.locate src (n + e.gap.length)⟩

theorem leadsFrom_locateAll_cons {item : Item} (hblank : item.isBlankRun = false) (gap : Text) (rest : List Item) :
    Node.leadsFrom none gap (Item.locateAll src (n + gap.length) (item :: rest)) =
      Entry.lead src n ⟨gap, item⟩ ::
        (Node.siblings (Item.locateAll src (n + gap.length) (item :: rest))).map Siblings.lead := by
  have hnode : (item.locate src (n + gap.length)).isBlankRun = false := (isBlankRun_locate ..).trans hblank
  rw [Item.locateAll, Node.leadsFrom_cons hnode, Node.siblings_cons hnode, Node.leadsFrom_some]
  rfl

/-- The leads among items that stand in a text: that of the first entry, and those of the siblings. -/
theorem leadsFrom_locateAll {items : List Item} (h : Item.WellFormedAll items) :
    Node.leadsFrom none [] (Item.locateAll src n items) =
      (entries [] items).head?.toList.map (Entry.lead src n) ++
        (Node.siblings (Item.locateAll src n items)).map Siblings.lead := by
  rcases leading_cases h with rfl | ⟨image, rfl⟩ | ⟨item, rest, hblank, -, rfl | ⟨image, rfl⟩⟩
  · rfl
  · rfl
  · rw [entries_cons [] hblank]
    exact leadsFrom_locateAll_cons hblank [] rest
  · rw [entries_blank, entries_cons image hblank]
    exact leadsFrom_locateAll_cons hblank image rest

end Found

/-! ### What is printed between neighbours -/

theorem Neighbours.spaced_eq (n : Neighbours) : (!n.gap.isEmpty || n.left.endsBlank) = !n.blanks.isEmpty := by
  rw [Neighbours.blanks, Item.endsBlank_eq]
  cases n.left.endBlanks <;> cases n.gap <;> rfl

theorem Neighbours.joint_eq (n : Neighbours) :
    n.joint =
      if 2 ≤ lineEnds n.left n.gap then .blankLine
      else if n.right.isComment then
        if n.gap.hasNewline then .newLine else .beside (!n.blanks.isEmpty)
      else if n.right.isInline && n.left.isInline then .flow (!n.blanks.isEmpty)
      else .newLine := by
  rw [Neighbours.joint, joint_some, Neighbours.spaced_eq]

section Laid

variable {page : Page} {depth : Nat} {n n' : Neighbours} (h : n.Laid page depth n')
include h

/-- Neighbours with blanks between them are printed so. -/
theorem Neighbours.Laid.apart (hblanks : n.blanks ≠ []) : n'.blanks ≠ [] := by
  obtain ⟨broken, hgap, -⟩ := h
  have hspaced : (!n.blanks.isEmpty) = true := by simpa using hblanks
  have hline : newLineText page depth ≠ [] := by simp [newLineText]
  have hlineGap : lineGap page depth true broken ≠ [] := by cases broken <;> simp [lineGap, hline]
  rw [hgap, Neighbours.joint_eq, hspaced]
  split
  · simp [Joint.gap]
  · split
    · split
      · exact hline
      · exact hlineGap
    · split
      · exact hlineGap
      · exact hline

/-- A blank line stands between what is printed for neighbours if their joint asks for one. -/
theorem Neighbours.Laid.blankLines_eq :
    n'.blanks.blankLines = if 2 ≤ lineEnds n.left n.gap then 1 else 0 := by
  obtain ⟨broken, hgap, -⟩ := h
  have hline := count_newLineText page depth
  have hlineGap : ∀ spaced, Text.blankLines (lineGap page depth spaced broken) = 0 := fun spaced =>
    Nat.sub_eq_zero_of_le (count_lineGap_le page depth spaced broken)
  rw [hgap, Neighbours.joint_eq]
  split
  · simp [Joint.gap, Text.blankLines, hline]
  · split
    · split
      · simp [Joint.gap, Text.blankLines, hline]
      · exact hlineGap _
    · split
      · exact hlineGap _
      · simp [Joint.gap, Text.blankLines, hline]

omit h in
/-- Line ends behind a text are part of it, so they make up no blank line. -/
theorem Neighbours.Found.lineEnds_eq {src : Source} {m : Nat} {text : Text} {s : Siblings}
    (hfound : n.Found src m text s) :
    (if 2 ≤ lineEnds n.left n.gap then 1 else 0) = if s.left.isText then 0 else min 1 s.blanks.blankLines := by
  rw [hfound.left, isText_locate]
  cases htext : n.left.isText with
  | true => rw [hfound.tied htext, if_neg (lineEnds_nil _), if_pos rfl]
  | false =>
      obtain ⟨t, c, heq, hc⟩ := exists_last hfound.wellFormed hfound.solid.1 htext
      have hlast : n.left.text.getLast? ≠ some '\n' := by
        rw [heq, List.getLast?_concat]
        rcases hc with rfl | rfl <;> decide
      rw [Spelled.lineEnds_eq hlast, hfound.blanks, Neighbours.blanks, Item.endBlanks_of_not_text htext,
        List.nil_append, if_neg Bool.false_ne_true, Text.blankLines]
      split <;> omega

/-- Neighbours that flow and have no blanks between them stay together if they fit on the line. -/
theorem Neighbours.Laid.glued_iff (hleft : n.left.isInline = true) (hright : n.right.isInline = true)
    (hblanks : n.blanks = []) :
    n'.before.hasNewline = true ∧ (n'.blanks = [] ↔ ∃ m k : Nat, n.left.room = some m ∧ n.right.room = some k ∧
      m + k ≤ page.width - (page.columnAt n'.before : Int)) := by
  obtain ⟨broken, hgap, hflow, -⟩ := h
  have hnil : n.gap = [] := (List.append_eq_nil_iff.1 hblanks).2
  have hcomment : n.right.isComment = false := by
    cases hitem : n.right with
    | leaf cls image =>
        rw [hitem] at hright
        cases cls <;> first | rfl | cases hright
    | _ => rfl
  have hjoint : n.joint = .flow false := by
    rw [Neighbours.joint_eq, hnil, if_neg (lineEnds_nil _), hcomment, hleft, hright, hblanks]
    rfl
  obtain ⟨hline, hbroken⟩ := hflow false hjoint
  refine ⟨hline, ?_⟩
  calc n'.blanks = [] ↔ (lineGap page depth false broken).isEmpty = true := by
        rw [hgap, hjoint, List.isEmpty_iff]
        rfl
    _ ↔ n.left.pairs n.right false (page.width - page.columnAt n'.before) = true := by
        rw [isEmpty_lineGap, hbroken, Bool.false_or, Bool.not_not]
    _ ↔ _ := by
        rw [Item.pairs_iff]
        simp

/-- A comment behind a line end, which is not part of a text, gets a line of its own. -/
theorem Neighbours.Laid.hasNewline (hcomment : n.right.isComment = true) (hline : n.gap.hasNewline = true) :
    n'.blanks.hasNewline = true := by
  obtain ⟨broken, hgap, -⟩ := h
  rw [hgap, Neighbours.joint_eq, hcomment, hline]
  split
  · rfl
  · exact hasNewline_newLineText page depth

/-- A comment behind a text stays on its line if it fits there. -/
theorem Neighbours.Laid.beside_iff (htext : n.left.isText = true) (hcomment : n.right.isComment = true)
    (hnil : n.gap = []) (hblanks : n.blanks ≠ []) (heven : page.Even) :
    n'.front.hasNewline = true ∧
      (n'.blanks.hasNewline = false ↔ page.columnAt n'.front + 1 + n.right.text.width ≤ page.width) := by
  obtain ⟨broken, hgap, -, hbeside⟩ := h
  have hspaced : (!n.blanks.isEmpty) = true := by simpa using hblanks
  have hjoint : n.joint = .beside true := by
    rw [Neighbours.joint_eq, hnil, if_neg (lineEnds_nil _), hcomment, hspaced]
    rfl
  obtain ⟨hline, hfits⟩ := hbeside true hjoint htext heven
  refine ⟨hline, ?_⟩
  rw [hgap, hjoint, Joint.gap, hasNewline_lineGap]
  exact hfits

end Laid

end Spelled

end XmlTidy
