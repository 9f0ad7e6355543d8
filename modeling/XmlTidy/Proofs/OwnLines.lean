import XmlTidy.Proofs.CommentDelimiters
import XmlTidy.Proofs.FormattedSiblings

/-!
Comments on lines of their own. A node starts its line if nothing but blanks stands before it there, and in a text
that was read this is so exactly if there is a line end among the blanks in front of it. A comment behind a line end
starts its line in the result of formatting, unless it stands behind a text whose whitespace is not kept: the line
end then belongs to the text, and the comment goes to the line of the text if it fits there.
-/

namespace XmlTidy

open Spelled

/-! ### Nodes that start their line -/

/-- Only blanks stand before a node on its line. -/
def Node.StartsLine (t : Text) (node : Node) : Prop := Blanks (Text.lastLine (t.take node.span.first))

instance (t : Text) : DecidablePred (Node.StartsLine t) := fun node =>
  decidable_of_iff ((Text.lastLine (t.take node.span.first)).all isBlank = true) List.all_eq_true

/-- Blanks behind something else are all that stands on their last line just if they hold a line end. -/
theorem Text.blanks_lastLine_iff {front blanks : Text} (hfront : EndsSolid front) (hblanks : Blanks blanks) :
    Blanks (Text.lastLine (front ++ blanks)) ↔ blanks.hasNewline = true := by
  obtain ⟨t, c, rfl, hc⟩ := hfront
  rw [Text.lastLine_append]
  cases hline : blanks.hasNewline with
  | true =>
      refine iff_of_true (fun d hd => hblanks d ?_) rfl
      rw [if_pos rfl, Text.lastLine, List.mem_reverse] at hd
      exact List.mem_reverse.1 ((List.takeWhile_sublist _).subset hd)
  | false =>
      refine iff_of_false (fun h => ?_) Bool.false_ne_true
      have hnot : Text.hasNewline [c] = false := by
        have hne : c ≠ '\n' := by
          rintro rfl
          cases hc
        simpa [Text.hasNewline] using hne.symm
      rw [if_neg Bool.false_ne_true, Text.lastLine_append, hnot, if_neg Bool.false_ne_true] at h
      exact Bool.false_ne_true (hc.symm.trans (h c (by simp)))

/-- A child that stands in a text behind its blanks, and these behind something else. -/
def Lead.StandsIn (t : Text) (l : Lead) : Prop :=
  Blanks l.blanks ∧ ∃ front, EndsSolid front ∧ t.take l.node.span.first = front ++ l.blanks

theorem Lead.StandsIn.startsLine_iff {t : Text} {l : Lead} (h : l.StandsIn t) :
    l.node.StartsLine t ↔ l.blanks.hasNewline = true := by
  obtain ⟨hblanks, front, hfront, htake⟩ := h
  rw [Node.StartsLine, htake]
  exact Text.blanks_lastLine_iff hfront hblanks

theorem Node.blanks_endBlanks (node : Node) : Blanks node.endBlanks := by
  cases node with
  | element => exact blanks_nil
  | leaf l =>
      cases l with
      | charData run =>
          intro c hc
          exact List.mem_takeWhile_imp (List.mem_reverse.1 hc)
      | _ => exact blanks_nil

/-- The blanks of leads, where runs of blanks hold nothing else. -/
theorem Node.blanks_of_mem_leadsFrom {previous : Option Node} {blanks : Text} {nodes : List Node}
    (hnodes : ∀ image span, .leaf (.charData ⟨image, true, span⟩) ∈ nodes → Blanks image) (hblanks : Blanks blanks)
    {l : Lead} (hl : l ∈ leadsFrom previous blanks nodes) : Blanks l.blanks := by
  fun_induction leadsFrom previous blanks nodes with
  | case1 => cases hl
  | case2 previous blanks image span rest ih =>
      refine ih (fun image span h => hnodes image span (List.mem_cons_of_mem _ h)) ?_ hl
      exact List.forall_mem_append.2 ⟨hblanks, hnodes image span List.mem_cons_self⟩
  | case3 previous blanks node rest _ ih =>
      rcases List.mem_cons.1 hl with rfl | hl
      · exact hblanks
      · exact ih (fun image span h => hnodes image span (List.mem_cons_of_mem _ h)) node.blanks_endBlanks hl

namespace Spelled

theorem blanks_of_mem_leads {src : Source} {n : Nat} {items : List Item} (h : Item.WellFormedAll items) {l : Lead}
    (hl : l ∈ Node.leadsFrom none [] (Item.locateAll src n items)) : Blanks l.blanks := by
  refine Node.blanks_of_mem_leadsFrom (fun image span hnode => ?_) blanks_nil hl
  obtain ⟨before, item, after, rfl, hlocate⟩ := exists_of_mem_locateAll hnode
  have hitem : item.WellFormed := wellFormed_of_mem h (by simp)
  have hblank : item.isBlankRun = true := by
    rw [← isBlankRun_locate src (n + (Item.textAll before).length), ← hlocate]
    rfl
  obtain ⟨image', rfl⟩ := exists_of_isBlankRun hblank
  cases hlocate
  rw [Item.WellFormed] at hitem
  exact hitem.2

/-- The blanks in front of the first entry stand at the start of the text. -/
theorem textAll_starts {items : List Item} (h : Item.WellFormedAll items) {e : Entry}
    (he : e ∈ (entries [] items).head?) : e.gap <+: Item.textAll items := by
  rcases leading_cases h with rfl | ⟨image, rfl⟩ | ⟨item, rest, hblank, -, rfl | ⟨image, rfl⟩⟩
  · cases he
  · cases he
  · rw [entries_cons [] hblank] at he
    obtain rfl := Option.some.inj he
    exact ⟨_, rfl⟩
  · rw [entries_blank, entries_cons image hblank] at he
    obtain rfl := Option.some.inj he
    rw [Item.textAll, Item.text]
    exact List.prefix_append _ _

/-- The children of an element stand in the text behind the blanks of their leads: the first behind the open tag, and
the others behind their siblings. -/
theorem standsIn_of_mem_leads {src : Source} {children : List Item} (h : Item.WellFormedAll children)
    {t pre post : Text} (ht : t = (pre ++ ['>']) ++ (Item.textAll children ++ post)) {l : Lead}
    (hl : l ∈ Node.leadsFrom none [] (Item.locateAll src (pre ++ ['>']).length children)) : l.StandsIn t := by
  refine ⟨blanks_of_mem_leads h hl, ?_⟩
  rw [leadsFrom_locateAll h, List.mem_append, List.mem_map, List.mem_map] at hl
  rcases hl with ⟨e, he, rfl⟩ | ⟨s, hs, rfl⟩
  · refine ⟨pre ++ ['>'], ⟨pre, '>', rfl, rfl⟩, ?_⟩
    rw [Entry.lead, first_locate]
    exact take_printed (textAll_starts h (Option.mem_toList.1 he)) ht
  · have hall : ∀ s ∈ Node.siblings (Item.locateAll src (pre ++ ['>']).length children), ∃ nb : Neighbours,
        nb.Found src (pre ++ ['>']).length (Item.textAll children) s :=
      forall_of_forall₂ (found_siblings h) fun nb _ _ hfound => ⟨nb, hfound⟩
    obtain ⟨nb, hfound⟩ := hall s hs
    have hfront : EndsSolid nb.front :=
      (Item.exists_solid hfound.wellFormed hfound.solid.1).2.append_left nb.before
    refine ⟨pre ++ ['>'] ++ nb.front, hfront.append_left _, ?_⟩
    rw [Siblings.lead, hfound.right, first_locate, take_printed hfound.upTo ht, ← hfound.front_append,
      List.append_assoc _ nb.front]

end Spelled

theorem Document.standsIn_of_read {t : Text} {d : Document} (hread : read t = .ok d) {e : Element}
    (he : e ∈ d.elements) {l : Lead} (hl : l ∈ e.leads) : l.StandsIn t := by
  obtain ⟨w, hw, rfl, rfl⟩ := exists_spelling hread
  obtain ⟨pre, item, post, hitem, htext, hlocate⟩ := exists_item_of_mem_elements hw he
  obtain ⟨tag, nodes⟩ := e
  cases item with
  | leaf cls image => cases hlocate
  | empty tag =>
      rw [Item.locate, Element.toNode, Node.element.injEq] at hlocate
      obtain ⟨rfl, rfl⟩ := hlocate
      cases hl
  | full tag children endTail =>
      obtain ⟨hinside, hlength⟩ := split_full htext
      rw [Item.WellFormed] at hitem
      rw [Item.locate, Element.toNode, Node.element.injEq, hlength, ← List.append_assoc] at hlocate
      obtain ⟨-, rfl⟩ := hlocate
      rw [← List.append_assoc pre] at hinside
      exact standsIn_of_mem_leads hitem.2.1 hinside hl

/-! ### Comments behind a line end -/

/-- What becomes of a comment behind a line end. It starts its line where whitespace is kept and behind anything but
text. Behind a text it does so if it does not fit on the line of the text; what fits is told on even pages only. -/
def Lead.KeepsLine (page : Page) (printed : Text) (kept : Prop) (l l' : Lead) : Prop :=
  ∀ token ∈ l.node.comment?, l.blanks.hasNewline = true →
    (kept ∨ l.behindText = false → l'.node.StartsLine printed) ∧
    (¬kept → l.behindText = true → page.Even →
      (l'.node.StartsLine printed ↔ ¬l'.Fits page printed token.image))

namespace Formatter

/-- With a valid profile and no embedders, comments keep their lines in the result: those behind a line end start
their line there, apart from those behind a text that fit on its line. -/
theorem read_format_startsLine {profile : Profile} (hvalid : profile.Valid) {correlationId : Option String}
    {f : Formatter} (hmake : make profile correlationId [] = .ok f) {t : Text} {d : Document}
    (hread : read t = .ok d) :
    ∃ r page, f.format t = .ok r ∧ profile.page? = some page ∧
      ((∀ p ∈ d.prolog, p.attributes ≠ []) → ∃ d', read r.formatted = .ok d') ∧
      ∀ d', read r.formatted = .ok d' →
        List.Forall₂ (fun e e' : Element => List.Forall₂ (fun l l' : Lead =>
          l.node.SameSkeleton profile.style.sortAttributes l'.node ∧
            l.KeepsLine page r.formatted.normalize (d.KeepsSpace profile.style e) l') e.leads e'.leads)
          d.elements d'.elements := by
  obtain ⟨r, page, hformat, hpage, hreadable, hspaced⟩ := exists_spacedAll hvalid hmake hread
  refine ⟨r, page, hformat, hpage, hreadable, fun d' hread' => ?_⟩
  refine forall₂_imp_mem_right (hspaced d' hread') fun e e' he' hchildren => ?_
  refine forall₂_imp_mem_right hchildren.leads fun l l' hl' hl => ⟨hl.node, fun token htoken hline => ?_⟩
  have hstarts := (Document.standsIn_of_read hread' he' hl').startsLine_iff
  rw [hstarts]
  by_cases hkept : d.KeepsSpace profile.style e
  · rw [hl.same hkept]
    exact ⟨fun _ => hline, fun hnot => absurd hkept hnot⟩
  · refine ⟨fun hown => ?_, fun _ hbehind heven => ?_⟩
    · exact hl.ownLine hkept (hown.resolve_left hkept) (Option.isSome_of_mem htoken) hline
    · have hblanks : l.blanks ≠ [] := by
        intro hnil
        rw [hnil] at hline
        cases hline
      rw [← hl.beside hkept hbehind heven hblanks token htoken, Bool.not_eq_false]

/-- A comment behind an element and a blank line, in front of a text. -/
def commentedText : Text := "<a><b/>\n\n<!--one-->text\n</a>".toList

theorem read_format_startsLine_sample :
    ∃ d r d' page, read commentedText = .ok d ∧ ignoring.page? = some page ∧
      (∃ e ∈ d.elements, ¬d.KeepsSpace ignoring.style e ∧ ∃ l ∈ e.leads,
        l.node.comment?.isSome = true ∧ l.blanks.hasNewline = true ∧ l.behindText = false) ∧
      format { profile := ignoring } commentedText = .ok r ∧ read r.formatted = .ok d' ∧
      List.Forall₂ (fun e e' : Element => List.Forall₂ (fun l l' : Lead =>
        l.node.SameSkeleton ignoring.style.sortAttributes l'.node ∧
          l.KeepsLine page r.formatted.normalize (d.KeepsSpace ignoring.style e) l') e.leads e'.leads)
        d.elements d'.elements := by
  obtain ⟨d, e, hread, hprolog, he, hkept, htest⟩ := @exists_root_of_test commentedText
    (fun e => e.leads.any fun l : Lead => decide (l.node.comment?.isSome = true ∧ l.blanks.hasNewline = true ∧
      l.behindText = false)) (by decide +kernel)
  obtain ⟨l, hl, hcomment⟩ := List.any_eq_true.1 htest
  obtain ⟨r, page, hformat, hpage, hreadable, hstarts⟩ :=
    @read_format_startsLine ignoring (Profile.valid_of_layout rfl) none _ rfl _ _ hread
  obtain ⟨d', hread'⟩ := hreadable hprolog
  exact ⟨d, r, d', page, hread, hpage,
    ⟨e, List.mem_of_head? (Document.head?_elements he), hkept, l, hl, of_decide_eq_true hcomment⟩, hformat, hread',
    hstarts d' hread'⟩

/-- A comment on a line of its own behind a text. -/
def commentChildren : List Item :=
  [.leaf .text "text\n".toList, .leaf .comment "<!--c-->".toList, .empty ⟨['b'], [], []⟩]

theorem wellFormedAll_commentChildren : Item.WellFormedAll commentChildren := by
  have htext : LeafClass.Image .text "text\n".toList := ⟨by simp, stops_cons.2 rfl, List.all_eq_true.1 rfl⟩
  have hcomment : LeafClass.Image .comment "<!--c-->".toList :=
    Comment.Shape.image (.inr ⟨⟨['c'], rfl, by decide⟩, by decide⟩)
  have hshort : Open.WellFormed ⟨['b'], [], []⟩ :=
    ⟨⟨'b', [], rfl, rfl, by simp⟩, List.forall_mem_nil _, blanks_nil⟩
  simp only [commentChildren, Item.WellFormedAll, Item.WellFormed, List.head?_cons, List.head?_nil,
    Option.mem_def, Option.some.injEq, reduceCtorEq, forall_eq', false_implies, implies_true, and_true]
  exact ⟨htext, trivial, hcomment, trivial, hshort⟩

/-- A comment goes to the line of the text before it, though a line end stood between them. -/
theorem read_format_comment_joins_text :
    ∃ f d r d', ignoring.Valid ∧ make ignoring none [] = .ok f ∧ read "<a>text\n<!--c--><b/></a>".toList = .ok d ∧
      f.format "<a>text\n<!--c--><b/></a>".toList = .ok r ∧
      r.formatted = "<a>\n  text <!--c-->\n  <b />\n</a>\n".toList ∧ read r.formatted = .ok d' ∧
      ¬List.Forall₂ (fun e e' : Element => ¬d.KeepsSpace ignoring.style e → List.Forall₂ (fun l l' : Lead =>
        l.node.comment?.isSome = true → l.blanks.hasNewline = true → l'.node.StartsLine r.formatted)
        e.leads e'.leads) d.elements d'.elements := by
  obtain ⟨r, hformat, hformatted⟩ := exists_format_plainRoot wellFormedAll_commentChildren
    (t := "<a>text\n<!--c--><b/></a>".toList) (by decide +kernel)
  have houtput : r.formatted = "<a>\n  text <!--c-->\n  <b />\n</a>\n".toList := by
    rw [hformatted]
    decide +kernel
  obtain ⟨d, e, hread, -, he, hkept, htest⟩ := @exists_root_of_test "<a>text\n<!--c--><b/></a>".toList
    (fun e => (e.leads.drop 1).head?.any fun l : Lead => l.node.comment?.isSome && l.blanks.hasNewline)
    (by decide +kernel)
  obtain ⟨d', e', hread', -, he', -, htest'⟩ := @exists_root_of_test "<a>\n  text <!--c-->\n  <b />\n</a>\n".toList
    (fun e => (e.leads.drop 1).head?.any fun l : Lead =>
      !decide (l.node.StartsLine "<a>\n  text <!--c-->\n  <b />\n</a>\n".toList)) (by decide +kernel)
  refine ⟨_, d, r, d', Profile.valid_of_layout rfl, rfl, hread, hformat, houtput, houtput ▸ hread', fun h => ?_⟩
  obtain ⟨l, hl, hcomment⟩ := (Option.any_eq_true _ _).1 htest
  obtain ⟨l', hl', hnot⟩ := (Option.any_eq_true _ _).1 htest'
  rw [Bool.and_eq_true] at hcomment
  rw [Bool.not_eq_true', decide_eq_false_iff_not] at hnot
  have hroot := rel_of_head? h (Document.head?_elements he) (Document.head?_elements he') hkept
  have hstarts := rel_of_head? (List.forall₂_drop 1 hroot) hl hl' hcomment.1 hcomment.2
  rw [houtput] at hstarts
  exact hnot hstarts

end Formatter

end XmlTidy
