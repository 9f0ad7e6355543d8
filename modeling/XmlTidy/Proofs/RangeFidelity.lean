import XmlTidy.Proofs.KeptChildren

/-!
Ignore ranges are printed as they were written. Whatever the style and the page, the text from the start marker of
a range to its end marker stands in the result, with the line ends of the profile, and the ranges of one
element stand there in their order, none overlapping another.
-/

namespace XmlTidy

/-! ### Occurrences in order -/

/-- Texts that occur in another one, each behind the one before it. -/
inductive OccurIn : List Text → Text → Prop where
  | nil (t : Text) : OccurIn [] t
  | cons (before : Text) {s after : Text} {rest : List Text} (h : OccurIn rest after) :
      OccurIn (s :: rest) (before ++ (s ++ after))

namespace OccurIn

variable {ss : List Text} {t : Text}

theorem prepend (before : Text) (h : OccurIn ss t) : OccurIn ss (before ++ t) := by
  cases h with
  | nil => exact .nil _
  | cons before' h =>
      rw [← List.append_assoc]
      exact .cons _ h

theorem append (h : OccurIn ss t) (after : Text) : OccurIn ss (t ++ after) := by
  induction h with
  | nil => exact .nil _
  | cons before _ ih =>
      rw [List.append_assoc, List.append_assoc]
      exact .cons before ih

theorem infix_of_mem (h : OccurIn ss t) {s : Text} (hs : s ∈ ss) : s <:+: t := by
  induction h with
  | nil => simp at hs
  | @cons before s' after rest _ ih =>
      rcases List.mem_cons.1 hs with rfl | hs
      · exact ⟨before, after, by simp⟩
      · obtain ⟨b, a, hba⟩ := ih hs
        exact ⟨before ++ (s' ++ b), a, by rw [← hba]; simp⟩

theorem withLineEnds (h : OccurIn ss t) (image : Text) :
    OccurIn (ss.map (·.withLineEnds image)) (t.withLineEnds image) := by
  have happend : ∀ s t : Text, (s ++ t).withLineEnds image = s.withLineEnds image ++ t.withLineEnds image :=
    fun s t => List.flatMap_append ..
  induction h with
  | nil => exact .nil _
  | cons before _ ih =>
      rw [happend, happend, List.map_cons]
      exact .cons _ ih

end OccurIn

/-! ### The ranges of an element -/

namespace Element

/-- The ranges among the comments of an element. -/
def ranges (markers : Markers) (e : Element) : List IgnoreRange := (IgnoreRange.scan markers e.comments).1

/-- What the ranges of an element take up in the source. -/
def rangeTexts (markers : Markers) (source : Text) (e : Element) : List Text :=
  (e.ranges markers).map fun r => source.slice r.first (r.last + 1)

end Element

namespace Spelled

/-- The texts of the ranges among pieces. -/
def rangeTexts : List Piece → List Text
  | [] => []
  | .range items :: rest => Item.textAll items :: rangeTexts rest
  | .pair _ _ :: rest | .single _ :: rest => rangeTexts rest

theorem slice_rangesAt {src : Source} {source pre post : Text} {ps : List Piece}
    (hsource : source = pre ++ (ps.flatMap Piece.text ++ post)) :
    (rangesAt src pre.length ps).map (fun r => source.slice r.first (r.last + 1)) = rangeTexts ps := by
  induction ps generalizing pre with
  | nil => rfl
  | cons piece ps ih =>
      rw [List.flatMap_cons, List.append_assoc] at hsource
      have htail := @ih (pre ++ piece.text) (by rw [hsource, List.append_assoc])
      rw [List.length_append] at htail
      cases piece with
      | range items =>
          rw [rangesAt, List.map_cons, rangeTexts]
          refine congrArg₂ List.cons ?_ htail
          rw [hsource]
          exact Text.slice_append pre (Item.textAll items) _
      | pair blanks text => exact htail
      | single item => exact htail

/-- The ranges of an element are the ranges among its pieces. -/
theorem ranges_element {markers : Markers} (tag : Tag) {children : List Item} (hchildren : Item.WellFormedAll children)
    (src : Source) (n : Nat) :
    Element.ranges markers ⟨tag, Item.locateAll src n children⟩ = rangesAt src n (pieces markers true children) := by
  show (IgnoreRange.pair markers none (IgnoreRange.sortTokens (commentsAt src n children))).1 = _
  rw [sortTokens_commentsAt hchildren, pair_commentsAt hchildren]

theorem rangeTexts_element {markers : Markers} {tag : Tag} {children : List Item}
    (hchildren : Item.WellFormedAll children) {src : Source} {source pre post : Text}
    (hsource : source = pre ++ (Item.textAll children ++ post)) :
    Element.rangeTexts markers source ⟨tag, Item.locateAll src pre.length children⟩ =
      rangeTexts (pieces markers true children) := by
  rw [Element.rangeTexts, ranges_element tag hchildren]
  refine @slice_rangesAt src source pre post _ ?_
  rw [flatMap_text, flatMap_pieces]
  exact hsource

theorem rangeTexts_of_not_hasRange {markers : Markers} {items : List Item}
    (h : Item.hasRange markers items = false) : rangeTexts (pieces markers true items) = [] := by
  have htexts := @slice_rangesAt (Source.ofText []) _ [] [] (pieces markers true items) rfl
  rw [rangesAt_of_not_hasRange h] at htexts
  exact htexts.symm

/-- Ranges stand in the text of what their pieces are printed as. -/
theorem occurIn_pieces {R : Item → Item → Prop} {ps ps' : List Piece}
    (h : List.Forall₂ (Piece.Reshaped R) ps ps') :
    OccurIn (rangeTexts ps) (Item.textAll (ps'.flatMap Piece.items)) := by
  induction h with
  | nil => exact .nil _
  | cons hpiece _ ih =>
      rw [List.flatMap_cons, textAll_append]
      cases hpiece with
      | range items => exact .cons [] ih
      | pair blanks text => exact ih.prepend _
      | single h => exact ih.prepend _

/-! ### Items -/

theorem exists_append_of_mem {item : Item} {items : List Item} (h : item ∈ items) :
    ∃ s t, Item.textAll items = s ++ (item.text ++ t) := by
  obtain ⟨before, after, rfl⟩ := List.append_of_mem h
  exact ⟨Item.textAll before, Item.textAll after, by rw [textAll_append, Item.textAll]⟩

/-- The ranges of an element stand in the text of every item that holds what they stand in. -/
theorem OccurIn.of_mem {ss : List Text} {item : Item} {items : List Item} (h : OccurIn ss item.text)
    (hmem : item ∈ items) : OccurIn ss (Item.textAll items) := by
  obtain ⟨s, t, htext⟩ := exists_append_of_mem hmem
  rw [htext]
  exact (h.append t).prepend s

theorem OccurIn.full {ss : List Text} {children : List Item} (h : OccurIn ss (Item.textAll children)) (tag : Open)
    (endTail : Text) : OccurIn ss (Item.full tag children endTail).text := by
  rw [Item.text, ← List.singleton_append]
  exact ((h.append _).prepend _).prepend _

/-- A child that is more than blanks is related to some child of a related list. -/
theorem exists_of_forall₂ {α : Type} {R : α → α → Prop} {as bs : List α} (h : List.Forall₂ R as bs) {a : α}
    (ha : a ∈ as) : ∃ b ∈ bs, R a b := by
  induction h with
  | nil => simp at ha
  | cons hab _ ih =>
      rcases List.mem_cons.1 ha with rfl | ha
      · exact ⟨_, by simp, hab⟩
      · obtain ⟨b, hb, hr⟩ := ih ha
        exact ⟨b, by simp [hb], hr⟩

theorem hasRange_of_keeps {style : Style} {o : Open} {children : List Item} (h : o.keeps style children = false) :
    Item.hasRange style.markers children = false := by
  simp only [Open.keeps, Open.reflows, Bool.or_eq_false_iff, Bool.not_eq_false', Bool.and_eq_true,
    Bool.not_eq_true'] at h
  exact h.1.2

section Full

variable {style : Style} {tag : Open} {children : List Item} {endTail : Text} {item' : Item}

/-- The ranges of an element stand in what the element is printed as: one that is reflowed has none. -/
theorem Item.Reshaped.occurIn_own (h : (Item.full tag children endTail).Reshaped style item') :
    OccurIn (rangeTexts (pieces style.markers true children)) item'.text := by
  have hnone : Item.hasRange style.markers children = false →
      OccurIn (rangeTexts (pieces style.markers true children)) item'.text := by
    intro hrange
    rw [rangeTexts_of_not_hasRange hrange]
    exact .nil _
  cases h with
  | same =>
      have hself : List.Forall₂ (Piece.Reshaped (· = ·)) (pieces style.markers true children)
          (pieces style.markers true children) :=
        List.forall₂_same.2 fun piece _ => by cases piece <;> constructor; rfl
      have hoccur := occurIn_pieces hself
      rw [flatMap_pieces] at hoccur
      exact OccurIn.full hoccur tag endTail
  | emptied _ hblank =>
      refine hnone ?_
      rw [← hasRange_solids, hblank]
      rfl
  | kept _ _ _ hpieces => exact OccurIn.full (occurIn_pieces hpieces) _ _
  | reflowed _ hkeeps => exact hnone (hasRange_of_keeps hkeeps)

/-- What stands in the text of every item that a child may be printed as stands in what the element is
printed as. Text is left out, since it may be printed in other lines. -/
theorem Item.Reshaped.occurIn_child (h : (Item.full tag children endTail).Reshaped style item') {child : Item}
    (hmem : child ∈ solids children) (htext : child.isText = false) {ss : List Text}
    (hchild : ∀ child', child.Reshaped style child' → OccurIn ss child'.text) : OccurIn ss item'.text := by
  have hrelated : ∀ {R : Item → Item → Prop} {children' : List Item},
      List.Forall₂ R (solids children) (solids children') →
      (∀ child', R child child' → OccurIn ss child'.text) → OccurIn ss (Item.textAll children') := by
    intro R children' hforall hR
    obtain ⟨child', hchild', hr⟩ := exists_of_forall₂ hforall hmem
    exact OccurIn.of_mem (hR child' hr) (mem_of_mem_solids hchild').1
  cases h with
  | same => exact OccurIn.full (OccurIn.of_mem (hchild child (.same child)) (mem_of_mem_solids hmem).1) _ _
  | emptied _ hblank =>
      rw [hblank] at hmem
      cases hmem
  | kept _ _ _ hpieces =>
      exact OccurIn.full (hrelated (forall₂_solids (Piece.forall₂_reshaped hpieces)) hchild) _ _
  | reflowed _ _ _ _ hflowed =>
      refine OccurIn.full (hrelated hflowed fun child' hr => ?_) _ _
      cases hr with
      | text => cases htext
      | other _ h => exact hchild child' h

end Full

/-- The text in front of the children of an element, and the text behind them. -/
theorem split_full {t : Text} {tag : Open} {children : List Item} {endTail pre post : Text}
    (h : t = pre ++ ((Item.full tag children endTail).text ++ post)) :
    t = (pre ++ (tag.text ++ ['>'])) ++ (Item.textAll children ++ (Item.endTag tag.name endTail ++ post)) ∧
      pre.length + (tag.text.length + 1) = (pre ++ (tag.text ++ ['>'])).length := by
  rw [h, Item.text]
  simp

/-- The ranges of every element of an item stand, in their order, in what the item is printed as. -/
theorem Item.Reshaped.occurIn {style : Style} {item item' : Item} (h : item.Reshaped style item')
    (hitem : item.WellFormed) {src : Source} {source pre post : Text}
    (hsource : source = pre ++ (item.text ++ post)) {e : Element}
    (he : e ∈ (item.locate src pre.length).elements) :
    OccurIn (e.rangeTexts style.markers source) item'.text := by
  induction item using Item.induct generalizing item' pre post with
  | leaf cls image => simp [elements_locate_leaf] at he
  | empty tag =>
      rw [Item.locate, elements_empty, List.mem_singleton] at he
      have hnil : e.rangeTexts style.markers source = [] := by
        simp [he, Element.rangeTexts, Element.ranges, Element.comments, IgnoreRange.scan,
          IgnoreRange.sortTokens, sortedBy, IgnoreRange.pair]
      rw [hnil]
      exact .nil _
  | full tag children endTail ih =>
      rw [Item.WellFormed] at hitem
      obtain ⟨hsource', hlength⟩ := split_full hsource
      rw [Item.locate, elements_locateAll, hlength] at he
      rcases List.mem_cons.1 he with rfl | he
      -- the ranges of the element itself
      · rw [rangeTexts_element hitem.2.1 hsource']
        exact h.occurIn_own
      -- those of an element below one of its children
      · rw [flatMap_elements_solids, List.mem_flatMap] at he
        obtain ⟨node, hnode, he⟩ := he
        have hsolid := List.of_mem_filter hnode
        obtain ⟨before, child, after, rfl, rfl⟩ := exists_of_mem_locateAll (List.mem_of_mem_filter hnode)
        rw [isBlankRun_locate] at hsolid
        have hmem : child ∈ solids (before ++ child :: after) := by
          rw [solids, List.mem_filter]
          exact ⟨by simp, hsolid⟩
        have htext : child.isText = false := by
          cases child with
          | leaf cls image => simp [elements_locate_leaf] at he
          | _ => rfl
        refine h.occurIn_child hmem htext fun child' hchild => ?_
        have hchildSource : source = (pre ++ (tag.text ++ ['>']) ++ Item.textAll before) ++ (child.text ++
            (Item.textAll after ++ (Item.endTag tag.name endTail ++ post))) := by
          rw [hsource', textAll_append, Item.textAll]
          simp
        refine ih child (by simp) hchild (wellFormed_of_mem hitem.2.1 (by simp)) hchildSource ?_
        rwa [List.length_append]

/-! ### Documents -/

theorem occurIn_topNodesAt {style : Style} {tops tops' : List (Text × Top)}
    (h : List.Forall₂ (Top.Reshaped style) (tops.map Prod.snd) (tops'.map Prod.snd))
    (htops : ∀ top ∈ tops, top.2.WellFormed) {src : Source} {source pre post : Text}
    (hsource : source = pre ++ (Whole.topsText tops ++ post)) {e : Element}
    (he : e ∈ (topNodesAt src pre.length tops).flatMap TopNode.elements) :
    OccurIn (e.rangeTexts style.markers source) (Whole.topsText tops') := by
  induction tops generalizing tops' pre with
  | nil => simp [topNodesAt] at he
  | cons first rest ih =>
      obtain ⟨gap, top⟩ := first
      obtain ⟨_, _, htop, hrest, hcons⟩ := List.forall₂_cons_left_iff.1 h
      cases tops' with
      | nil => simp at hcons
      | cons first' rest' =>
          obtain ⟨gap', top'⟩ := first'
          rw [List.map_cons, List.cons.injEq] at hcons
          obtain ⟨rfl, rfl⟩ := hcons
          have hfirst : source = (pre ++ gap) ++ (top.text ++ (Whole.topsText rest ++ post)) := by
            rw [hsource]
            simp [Whole.topsText]
          have hsourceRest : source = (pre ++ gap ++ top.text) ++ (Whole.topsText rest ++ post) := by
            rw [hfirst]
            simp
          have htext : Whole.topsText ((gap', top') :: rest') = gap' ++ (top'.text ++ Whole.topsText rest') := by
            simp [Whole.topsText]
          rw [topNodesAt, List.flatMap_cons, List.mem_append, ← List.length_append, ← List.length_append] at he
          rw [htext]
          rcases he with he | he
          · refine (OccurIn.append ?_ _).prepend _
            cases htop with
            | misc => simp [Top.node, TopNode.elements] at he
            | doctype => simp [Top.node, TopNode.elements] at he
            | root hitem => exact hitem.occurIn (htops (gap, .root _) (by simp)).2 hfirst he
          · exact ((ih hrest (fun next hnext => htops next (by simp [hnext])) hsourceRest he).prepend _).prepend _

/-- The ranges of every element of a document stand, in their order, in what the document is printed as. -/
theorem Whole.Reshaped.occurIn {style : Style} {w w' : Whole} (h : w.Reshaped style w') (hw : w.WellFormed)
    {e : Element} (he : e ∈ w.locate.elements) : OccurIn (e.rangeTexts style.markers w.text) w'.text := by
  rw [elements_locate hw] at he
  rw [Whole.text.eq_1 w']
  exact ((occurIn_topNodesAt h.tops (fun top htop => (hw.tops top htop).2) (Whole.text.eq_1 w) he).append _).prepend _

end Spelled

/-! ### Formatting -/

/-- Every ignore range stands in the result as it was written, with the line ends of the profile, and the ranges
of one element stand there in their order and do not overlap. -/
theorem Formatter.format_ranges {profile : Profile} (hvalid : profile.Valid) {correlationId : Option String}
    {f : Formatter} (hmake : make profile correlationId [] = .ok f) {t : Text} {d : Document}
    (hread : read t = .ok d) :
    ∃ r lineEnd, f.format t = .ok r ∧ profile.lineEnd = .ok lineEnd ∧ ∀ e ∈ d.elements,
      (∀ range ∈ e.ranges profile.style.markers,
        (t.normalize.slice range.first (range.last + 1)).withLineEnds lineEnd.image <:+: r.formatted) ∧
      OccurIn ((e.rangeTexts profile.style.markers t.normalize).map (·.withLineEnds lineEnd.image))
        r.formatted := by
  obtain ⟨w, w', lineEnd, r, rfl, h⟩ := exists_formatted hvalid hmake hread
  rw [← (of_make hmake).1]
  refine ⟨r, lineEnd, h.format, h.lineEnd, fun e he => ?_⟩
  have hoccur : OccurIn ((e.rangeTexts f.profile.style.markers t.normalize).map (·.withLineEnds lineEnd.image))
      r.formatted := by
    rw [h.formatted, h.source, marked]
    have := (h.reshaped.occurIn h.wellFormed he).withLineEnds lineEnd.image
    split
    · exact this.prepend [Text.byteOrderMark]
    · exact this
  refine ⟨fun range hrange => hoccur.infix_of_mem ?_, hoccur⟩
  rw [Element.rangeTexts, List.map_map]
  exact List.mem_map_of_mem hrange

/-- An element that could be printed on one line, between the markers of a range. -/
def Formatter.rangedText : Text :=
  "<a><!-- prettier-ignore-start --> <b\n /> \n<!-- prettier-ignore-end --></a>".toList

/-- Such a text has a range, which stands in the result. -/
theorem Formatter.format_ranges_ranged :
    ∃ d r lineEnd, read rangedText = .ok d ∧
      (∃ e ∈ d.elements, e.ranges Profile.canonical.style.markers ≠ []) ∧
      format { profile := .canonical } rangedText = .ok r ∧ Profile.canonical.lineEnd = .ok lineEnd ∧
      ∀ e ∈ d.elements, (∀ range ∈ e.ranges Profile.canonical.style.markers,
          (rangedText.normalize.slice range.first (range.last + 1)).withLineEnds lineEnd.image <:+: r.formatted) ∧
        OccurIn ((e.rangeTexts Profile.canonical.style.markers rangedText.normalize).map
          (·.withLineEnds lineEnd.image)) r.formatted := by
  -- The comments of the root are tested in the order they are found in: sorting them does not compute.
  obtain ⟨d, hread, htest⟩ := @exists_ok_of_any _ _ (read rangedText)
    (fun d : Document => d.root.any fun e : Element =>
      decide (e.comments.Pairwise fun a b : Token => a.span.first < b.span.first) &&
        decide ((IgnoreRange.pair Profile.canonical.style.markers none e.comments).1 ≠ []))
    (by decide +kernel)
  rw [Option.any_eq_true] at htest
  obtain ⟨e, he, htest⟩ := htest
  rw [Bool.and_eq_true, decide_eq_true_iff, decide_eq_true_iff] at htest
  have hmem : e ∈ d.elements := by
    simp [Document.elements, he, Element.toNode, Node.elements]
  have hranges : e.ranges Profile.canonical.style.markers ≠ [] := by
    rw [Element.ranges, IgnoreRange.scan, IgnoreRange.sortTokens, sortedBy_eq_of_perm (.refl _) htest.1]
    exact htest.2
  obtain ⟨r, lineEnd, hformat, hlineEnd, hall⟩ :=
    @format_ranges .canonical (Profile.valid_of_layout rfl) none _ rfl _ _ hread
  exact ⟨d, r, lineEnd, hread, ⟨e, hmem, hranges⟩, hformat, hlineEnd, hall⟩

end XmlTidy
