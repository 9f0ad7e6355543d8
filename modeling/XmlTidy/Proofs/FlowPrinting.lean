import XmlTidy.Proofs.Fitting
import XmlTidy.Proofs.Joints
import XmlTidy.Proofs.TextWrapping
import XmlTidy.Proofs.Weaving

/-!
What is printed for text and references that flow into each other. Each is printed behind a gap: a line
break, or else the blank that was there. Printing them again, with the gaps as they were printed, makes
the same choices. What shared a line still fits, and what was moved to the next line does not fit either,
or is wrapped text and has to break.
-/

namespace XmlTidy

namespace Spelled

open Printed

/-! ### Gaps -/

/-- The joint of an entry behind the gap that is printed for it. Behind a text the gap is part of the text,
so that a line break in it does not count. -/
def Joint.again (behindText broken : Bool) : Joint → Joint
  | .attach spaced => if broken then .newLine else .attach spaced
  | .beside spaced =>
      if broken then (if behindText then .beside true else .newLine) else .beside spaced
  | .flow spaced => .flow (spaced || broken)
  | joint => joint

section Delimiter

variable {page : Page} {depth : Nat} {mode : Mode} {k : Ahead} {p : Printed Text Int}

theorem run_delimiter (hp : p.Solid) (spaced : Bool) :
    (delimiter spaced).run page depth mode k p =
      match mode with
      | .flat => p.write (lineGap page depth spaced false)
      | .broken => p.newLine page depth := by
  cases spaced
  · exact run_line hp true
  · exact run_line hp false

theorem wrote_delimiter (hp : p.Solid) (spaced : Bool) :
    Wrote p (lineGap page depth spaced (mode = .broken)) ((delimiter spaced).run page depth mode k p) := by
  rw [run_delimiter hp]
  cases mode with
  | flat => exact wrote_write ..
  | broken => exact wrote_newLine ..

theorem run_delimiter_of_even (heven : page.Even) (hp : p.Solid) (spaced : Bool) :
    (delimiter spaced).run page depth mode k p = p.write (lineGap page depth spaced (mode = .broken)) := by
  rw [run_delimiter hp]
  cases mode with
  | flat => rfl
  | broken => exact heven.newLine_eq depth p

end Delimiter

/-! ### Joints of what is printed -/

/-- The items before an entry and before what is printed for it, if there are any: what was printed flows
as the item did, and ends neither with a blank nor with a line. -/
inductive Follows : Option Item → Option Item → Prop where
  | start : Follows none none
  | item {item item' : Item} (htext : item'.isText = item.isText) (hinline : item'.isInline = item.isInline)
      (hblank : item'.endsBlank = false) (hend : item'.text.getLast? ≠ some '\n') :
      Follows (some item) (some item')

theorem Follows.trimmed {previous : Option Item} {item : Item} (h : Follows previous (some item)) :
    item.endsBlank = false := by
  cases h with
  | item _ _ hblank _ => exact hblank

theorem Follows.dropEndWhile_eq {item item' : Item} (h : Follows (some item) (some item'))
    (htext : item.isText = true) : item'.text.dropEndWhile isBlank = item'.text := by
  cases h with
  | item hsame _ hblank _ =>
      obtain ⟨image, rfl⟩ := exists_of_isText (hsame.trans htext)
      exact Text.dropEndWhile_of_trimmed hblank

theorem lineEnds_eq {item : Item} (h : item.text.getLast? ≠ some '\n') (gap : Text) :
    lineEnds item gap = gap.count '\n' := by
  unfold lineEnds
  cases hlast : item.text.getLast? with
  | none => rfl
  | some c =>
      have hc : c ≠ '\n' := fun hc => h (by rw [hlast, hc])
      simp [hc]

/-! ### Single items -/

/-- What is neither blanks nor text ends with a bracket or a semicolon. -/
theorem exists_last {item : Item} (h : item.WellFormed) (hblank : item.isBlankRun = false)
    (htext : item.isText = false) : ∃ t c, item.text = t ++ [c] ∧ (c = '>' ∨ c = ';') := by
  cases item with
  | leaf cls image =>
      rw [Item.WellFormed] at h
      rw [Item.text]
      cases cls with
      | blank => cases hblank
      | text => cases htext
      | cdata =>
          obtain ⟨s, rfl⟩ := h.2.suffix
          exact ⟨s ++ [']', ']'], '>', by simp, .inl rfl⟩
      | comment =>
          obtain ⟨s, rfl⟩ := h.2.suffix
          exact ⟨s ++ ['-', '-'], '>', by simp, .inl rfl⟩
      | instruction =>
          obtain ⟨s, rfl⟩ := h.2.1.suffix
          exact ⟨s ++ ['?'], '>', by simp, .inl rfl⟩
      | reference kind =>
          obtain ⟨body, rfl⟩ := h.shape
          exact ⟨'&' :: body, ';', by simp, .inr rfl⟩
  | empty tag => exact ⟨tag.text ++ ['/'], '>', by simp [Item.text], .inl rfl⟩
  | full tag children endTail =>
      exact ⟨tag.text ++ '>' :: (Item.textAll children ++ '<' :: '/' :: (tag.name ++ endTail)), '>',
        by simp [Item.text, Item.endTag], .inl rfl⟩

theorem solid_of_not_text {item : Item} (h : item.WellFormed) (hblank : item.isBlankRun = false)
    (htext : item.isText = false) : item.text.Solid := by
  obtain ⟨t, c, heq, hc⟩ := exists_last h hblank htext
  rw [heq]
  exact Text.solid_concat (by rcases hc with rfl | rfl <;> rfl) t

theorem Flowed.isComment_eq {style : Style} {item item' : Item}
    (h : Flowed (Item.Reshaped style) item item') : item'.isComment = item.isComment := by
  cases h with
  | text => rfl
  | other _ h =>
      rcases h.alike with rfl | ⟨he, he'⟩
      · rfl
      · cases item <;> cases item' <;> first | rfl | exact he.elim | exact he'.elim

theorem Flowed.isInline_eq {style : Style} {item item' : Item}
    (h : Flowed (Item.Reshaped style) item item') : item'.isInline = item.isInline := by
  cases h with
  | text => rfl
  | other _ h =>
      rcases h.alike with rfl | ⟨he, he'⟩
      · rfl
      · cases item <;> cases item' <;> first | rfl | exact he.elim | exact he'.elim

/-- Behind an item that is more than text, what is printed for it is followed in the same way. -/
theorem Flowed.follows {style : Style} {item item' : Item} (h : Flowed (Item.Reshaped style) item item')
    (hwf : item'.WellFormed) (hblank : item.isBlankRun = false) (htext : item.isText = false) :
    Follows (some item) (some item') := by
  have htext' := h.isText_eq.trans htext
  refine .item h.isText_eq h.isInline_eq ?_ ?_
  · cases item' with
    | leaf cls image => cases cls <;> first | rfl | cases htext'
    | _ => rfl
  · obtain ⟨t, c, heq, hc⟩ := exists_last hwf (h.isBlankRun_eq.trans hblank) htext'
    rw [heq, List.getLast?_concat]
    rcases hc with rfl | rfl <;> decide

theorem endsBlank_append {t gap : Text} (h : Text.endsBlank t = false) (hgap : Blanks gap) :
    Text.endsBlank (t ++ gap) = !gap.isEmpty := by
  rw [Text.endsBlank_eq, Text.endBlanks_append h hgap]

theorem lineEnds_nil (item : Item) : ¬2 ≤ lineEnds item [] := by
  rw [lineEnds, List.append_nil]
  have hcount := @List.count_le_length _ _ '\n' item.text.getLast?.toList
  have hlength : item.text.getLast?.toList.length ≤ 1 := by
    cases item.text.getLast? <;> simp
  omega

/-- The joint of what is printed for an entry, behind the gap that is printed for its joint. -/
theorem joint_again {previous previous' : Option Item} (h : Follows previous previous') {e : Entry}
    (htied : (∃ item ∈ previous, item.isText = true) → e.gap = []) {item' : Item}
    (hcomment : item'.isComment = e.item.isComment) (hinline : item'.isInline = e.item.isInline) (page : Page)
    (depth : Nat) (broken : Bool) {behind : Text} :
    (Entry.settled (previous'.any Item.isText) behind ⟨(e.joint previous).gap page depth broken, item'⟩).joint
        (previous'.map (Item.extend ((e.joint previous).gap page depth broken))) =
      (e.joint previous).again (previous'.any Item.isText) broken := by
  have hgaps : ∀ spaced, ¬2 ≤ (lineGap page depth spaced broken).count '\n' := fun spaced =>
    Nat.not_le_of_lt (Nat.lt_succ_of_le (count_lineGap_le page depth spaced broken))
  cases h with
  | start =>
      rw [Option.map_none, Option.any_none, Entry.settled, joint_none e, joint_none, isComment_extend, hcomment]
      simp only [Bool.false_eq_true, if_false]
      split
      · split
        · simp [Joint.gap, hasNewline_newLineText, Joint.again]
        · cases broken <;> simp [Joint.gap, hasNewline_lineGap, isEmpty_lineGap, Joint.again]
      · rfl
  | @item first first' htext hinline' hblank hend =>
      rw [Option.map_some, Option.any_some, Entry.settled, joint_some e, joint_some, isComment_extend, hcomment,
        isInline_extend, isInline_extend, hinline, hinline']
      cases htext' : first'.isText with
      | false =>
          rw [extend_of_not_text htext', hblank]
          simp only [Bool.false_eq_true, if_false, lineEnds_eq hend]
          have hline := count_newLineText page depth
          by_cases hlines : 2 ≤ lineEnds first e.gap
          · simp [hlines, Joint.gap, Joint.again, hline]
          · simp only [hlines, if_false]
            split
            · split
              · simp [Joint.gap, Joint.again, hline, hasNewline_newLineText]
              · cases broken <;>
                  simp [Joint.gap, Joint.again, hgaps, hasNewline_lineGap, isEmpty_lineGap]
            · split
              · simp [Joint.gap, Joint.again, hgaps, isEmpty_lineGap]
              · simp [Joint.gap, Joint.again, hline]
      | true =>
          -- the gap has become part of the text, which now ends with it
          rw [htied ⟨first, rfl, htext ▸ htext'⟩]
          obtain ⟨image, rfl⟩ := exists_of_isText htext'
          have hspaced : ∀ gap, Blanks gap →
              ((Item.leaf .text image).extend gap).endsBlank = !gap.isEmpty := fun gap hgap =>
            endsBlank_append hblank hgap
          simp only [if_true, lineEnds_nil, if_false]
          have hnil : Text.hasNewline [] = false := rfl
          rw [hnil, hspaced _ (Joint.blanks_gap page depth broken _)]
          simp only [Bool.false_eq_true, if_false, List.isEmpty_nil, Bool.not_true, Bool.false_or]
          split
          · cases broken <;> simp [Joint.gap, Joint.again, isEmpty_lineGap]
          · split
            · simp [Joint.gap, Joint.again, isEmpty_lineGap]
            · rfl

/-- A leaf that is not text is printed as it stands. -/
theorem Flowed.eq_leaf {style : Style} {cls : LeafClass} {image : Text} {item' : Item} (htext : cls ≠ .text)
    (h : Flowed (Item.Reshaped style) (.leaf cls image) item') : item' = .leaf cls image := by
  cases h with
  | text => contradiction
  | other _ h =>
      rcases h.alike with rfl | ⟨he, -⟩
      · rfl
      · exact he.elim

/-! ### Items that flow -/

/-- Pages on which what is printed in a style is printed again as it was: where whitespace is ignored, text
is wrapped, and the indentation inside it has to be as wide as it counts. -/
def Suits (style : Style) (page : Page) : Prop := style.sensitivity = .ignore → page.Even

/-- What is printed for an item among others that are reflowed. Apart from text, it can take the item's
place. -/
structure Item.Flows (style : Style) (item : Item) : Prop where
  wellFormed : item.WellFormed
  prints : ∀ page depth mode k p, ∃ item',
    Flowed (Item.Laid style page) item item' ∧ item'.WellFormed ∧ item'.text.Solid ∧
      Follows (some item) (some item') ∧ Wrote p item'.text ((item.flow style).run page depth mode k p) ∧
      (item.isText = false → Suits style page → Doc.Placed page mode k p (item.flow style) →
        Doc.Reprints page depth mode k p (item.flow style) (item'.flow style))

section Inline

variable {style : Style} {item : Item} {page : Page} {depth : Nat}

theorem reach_flow (hinline : item.isInline = true) (k : Ahead) (width : Int) :
    (item.flow style).reach true .flat k width = item.room.elim false fun n => k (width - n) := by
  cases htext : item.isText with
  | true =>
      obtain ⟨image, rfl⟩ := exists_of_isText htext
      rw [show (Item.leaf .text image).flow style = textDoc image from rfl,
        show (Item.leaf .text image).room = textRoom image from rfl]
      cases hroom : textRoom image with
      | none => rw [reach_textDoc_none hroom]; rfl
      | some n => rw [reach_textDoc hroom]; rfl
  | false =>
      obtain ⟨kind, image, rfl⟩ := exists_reference hinline htext
      rw [flow_leaf (by simp) (by simp), Doc.reach]
      rfl

theorem reachAll_pair {next : Item} (hinline : item.isInline = true) (hnext : next.isInline = true)
    (spaced : Bool) (width : Int) :
    Doc.reachAll true .flat [item.flow style, delimiter spaced, next.flow style] .clear width =
      item.pairs next spaced width := by
  have hdelimiter : ∀ k : Ahead, (delimiter spaced).reach true .flat k =
      fun width => k (width - (if spaced then 1 else 0)) := by
    intro k
    cases spaced <;> simp [delimiter, Doc.softLine, Doc.spaceLine, Doc.reach]
  simp only [Doc.reachAll, reach_flow hinline, hdelimiter, reach_flow hnext, Item.pairs]
  cases item.room with
  | none => rfl
  | some m =>
      cases next.room with
      | none => rfl
      | some n =>
          simp only [Option.elim_some, Ahead.clear, decide_eq_decide]
          omega

/-- What is printed for an item that flows, as far as printing it again goes: it is printed so in any mode,
it is as wide as the item or has several lines, and it has one if the item fits. -/
structure Item.FlowsAgain (style : Style) (page : Page) (depth : Nat) (item item' : Item) (p q : Printed Text Int) :
    Prop where
  run_eq : ∀ mode k, (item'.flow style).run page depth mode k p = q
  room : item'.room = none ∨ item'.room = item.room
  fits : ∀ n, item.room = some n → n ≤ page.width - p.column → item'.room = some n ∧ q.column = p.column + n

/-- A text that starts and ends with no blank is trimmed. -/
theorem trim_eq {image : Text} (hstops : Stops isBlank image) (hend : Text.endsBlank image = false) :
    image.trim = image := by
  have hdrop : image.dropWhile isBlank = image := by
    cases image with
    | nil => rfl
    | cons c image => exact List.dropWhile_cons_of_neg (by simp [stops_cons.1 hstops])
  rw [Text.trim, Text.stripWhile, hdrop]
  exact Text.dropEndWhile_of_trimmed hend

theorem hasNewline_reference {kind : ReferenceKind} {image : Text}
    (h : (Item.leaf (.reference kind) image).WellFormed) : image.hasNewline = false := by
  rw [Item.WellFormed] at h
  simpa [Text.hasNewline] using Reference.IsReference.not_mem_newline h

/-- On any page, an item that fits is printed on one line. -/
theorem column_of_fits {item' : Item} (hinline : item.isInline = true) (hwf : item.WellFormed)
    (hflowed : Flowed (Item.Reshaped style) item item') {mode : Mode} {k : Ahead} {p : Printed Text Int}
    (hwrote : Wrote p item'.text ((item.flow style).run page depth mode k p)) {n : Nat}
    (hroom : item.room = some n) (hfits : n ≤ page.width - p.column) :
    item'.text.hasNewline = false ∧
      ((item.flow style).run page depth mode k p).column = p.column + item'.text.width := by
  cases htext : item.isText with
  | true =>
      obtain ⟨image, rfl⟩ := exists_of_isText htext
      obtain ⟨l, hrun, hline, -⟩ := @run_textDoc_of_fits page depth image n hroom p hfits mode k
      change (Spelled.textDoc image).run page depth mode k p = p.write l at hrun
      change Wrote p _ ((Spelled.textDoc image).run page depth mode k p) at hwrote
      change _ ∧ ((Spelled.textDoc image).run page depth mode k p).column = _
      rw [hrun] at hwrote ⊢
      obtain rfl : item'.text = l :=
        List.reverse_injective (List.append_cancel_right (hwrote.symm.trans (wrote_write p l)))
      rw [write_text, hline]
      exact ⟨rfl, rfl⟩
  | false =>
      obtain ⟨kind, image, rfl⟩ := exists_reference hinline htext
      obtain rfl := hflowed.eq_leaf (by simp)
      have hnewline := hasNewline_reference hwf
      rw [flow_leaf (by simp) (by simp), Doc.run_text, write_text, hnewline]
      exact ⟨hnewline, rfl⟩

/-- On an even page, an item that flows is written as what it is printed as. -/
theorem run_flow_of_even {item' : Item} (heven : page.Even) (hinline : item.isInline = true)
    (hflowed : Flowed (Item.Reshaped style) item item') {mode : Mode} {k : Ahead} {p : Printed Text Int}
    (hwrote : Wrote p item'.text ((item.flow style).run page depth mode k p)) :
    (item.flow style).run page depth mode k p = p.write item'.text := by
  cases htext : item.isText with
  | true =>
      obtain ⟨image, rfl⟩ := exists_of_isText htext
      change (textDoc image).run page depth mode k p = p.write item'.text
      rw [run_textDoc_eq heven, ← eq_wrapText heven hwrote]
  | false =>
      obtain ⟨kind, image, rfl⟩ := exists_reference hinline htext
      obtain rfl := hflowed.eq_leaf (by simp)
      rw [flow_leaf (by simp) (by simp), Doc.run_text, Item.text]

theorem flowsAgain {item' : Item} (hinline : item.isInline = true) (hwf : item.WellFormed)
    (heven : item.isText = true → page.Even) (hflowed : Flowed (Item.Reshaped style) item item')
    (hwf' : item'.WellFormed) (hfollows : Follows (some item) (some item')) {mode : Mode} {k : Ahead}
    {p : Printed Text Int} (hwrote : Wrote p item'.text ((item.flow style).run page depth mode k p)) :
    item.FlowsAgain style page depth item' p ((item.flow style).run page depth mode k p) := by
  cases htext : item.isText with
  | true =>
      obtain ⟨image, rfl⟩ := exists_of_isText htext
      obtain ⟨image', rfl⟩ := exists_of_isText (hflowed.isText_eq.trans htext)
      have hpage := heven htext
      have htrim : image'.trim = image' := by
        cases hfollows with
        | item _ _ hblank _ =>
            rw [Item.WellFormed] at hwf'
            exact trim_eq hwf'.2.1 hblank
      have hwrap : image' = wrapText page depth p.column image.trim := eq_wrapText hpage hwrote
      rw [run_flow_of_even hpage hinline hflowed hwrote, Item.text]
      refine ⟨fun mode' k' => ?_, ?_, fun n hroom hfits => ?_⟩
      · change (textDoc image').run page depth mode' k' p = _
        rw [run_textDoc_eq hpage, htrim, hwrap, wrapText_wrapText hpage]
      · exact (textDoc_again htrim hwrap).imp_right And.left
      · obtain ⟨⟨hroom', -⟩, hcolumn⟩ := textDoc_fits htrim hroom hfits hwrap
        exact ⟨hroom', hcolumn⟩
  | false =>
      obtain ⟨kind, image, rfl⟩ := exists_reference hinline htext
      obtain rfl := hflowed.eq_leaf (by simp)
      have hnewline := hasNewline_reference hwf
      rw [flow_leaf (by simp) (by simp), Doc.run_text]
      refine ⟨fun mode' k' => ?_, .inr rfl, fun n hroom _ => ⟨hroom, ?_⟩⟩
      · rw [flow_leaf (by simp) (by simp), Doc.run_text]
      · obtain rfl : image.width = n := Option.some.inj hroom
        rw [write_text, hnewline]
        rfl

end Inline

/-! ### Fills -/

theorem trim_append_blanks {image gap : Text} (hne : image ≠ []) (hstops : Stops isBlank image)
    (hgap : Blanks gap) : Text.trim (image ++ gap) = image.trim := by
  obtain ⟨c, rest, rfl⟩ := List.exists_cons_of_ne_nil hne
  have hc : isBlank c = false := stops_cons.1 hstops
  rw [Text.trim, Text.trim, Text.stripWhile, Text.stripWhile, List.cons_append,
    List.dropWhile_cons_of_neg (by simp [hc]), List.dropWhile_cons_of_neg (by simp [hc]), ← List.cons_append,
    Text.dropEndWhile, Text.dropEndWhile, List.reverse_append,
    List.dropWhile_append_of_pos fun d hd => hgap d (List.mem_reverse.1 hd)]

/-- Blanks behind a text do not matter for its layout. -/
theorem flow_extend {style : Style} {item : Item} (h : item.WellFormed) {gap : Text} (hgap : Blanks gap) :
    (item.extend gap).flow style = item.flow style := by
  cases htext : item.isText with
  | false => rw [extend_of_not_text htext]
  | true =>
      obtain ⟨image, rfl⟩ := exists_of_isText htext
      rw [Item.WellFormed] at h
      change textDoc (image ++ gap) = textDoc image
      rw [textDoc, textDoc, trim_append_blanks h.1 h.2.1 hgap]

theorem tied_flowRest {item : Item} {es : List Entry} (h : Tied (some item) es) :
    Tied (some (flowRest item es).1) (flowRest item es).2 := by
  induction es generalizing item with
  | nil => exact .intro
  | cons e rest ih =>
      rcases flow_or_stays item e rest with ⟨spaced, hjoint⟩ | hstays
      · rw [flowRest_flow hjoint]
        exact ih h.2
      · rw [flowRest_of_stays hstays]
        exact h

/-- What is printed for an item that flows and for the entries that flow into the text behind it. In front of
entries that stay where they are, and with the gaps as they were printed, it is printed again so. -/
structure FillPrinted (style : Style) (page : Page) (depth : Nat) (item : Item) (es : List Entry)
    (p q : Printed Text Int) (item' : Item) (fs : List Entry) : Prop where
  laid : Flowed (Item.Laid style page) item item'
  wellFormed : item'.WellFormed
  trimmed : item'.endsBlank = false
  entries : List.Forall₂ (Entry.Laid style page) (flowTake item es) fs
  gaps : ∀ before before', before'.hasNewline = true → p.column = page.columnAt before' →
    List.Forall₂ (Neighbours.Laid page depth) (neighboursFrom before item (flowTake item es))
      (neighboursFrom before' item' fs)
  solid : (item'.text ++ entriesText fs).Solid
  wrote : Wrote p (item'.text ++ entriesText fs) q
  written : page.Even → q = p.write (item'.text ++ entriesText fs)
  room : (item.isText = true → page.Even) → (item'.room = none ∨ item'.room = item.room) ∧
    ∀ n, item.room = some n → n ≤ page.width - p.column → item'.room = some n
  follows : Follows (some (flowRest item es).1) (some (lastOf item' fs))
  again : (item.isText = true → page.Even) → (∀ e ∈ es, e.item.isText = true → page.Even) →
    Tied (some item) es → ∀ tail rest, Blanks tail → Stays ((lastOf item' fs).extend tail) rest →
      flowRest (item'.extend (headGap tail fs)) (settle tail item'.isText fs ++ rest) =
        ((lastOf item' fs).extend tail, rest) ∧
      ∀ mode k, Doc.runFill page depth mode
        (item'.flow style ::
          flowParts (Item.flow style) (item'.extend (headGap tail fs)) (settle tail item'.isText fs ++ rest))
        k p = q

/-- What is printed for an item that flows, and what it prints when it is read and printed again. -/
structure Item.InlinePrinted (style : Style) (page : Page) (depth : Nat) (item : Item) (p q : Printed Text Int)
    (item' : Item) : Prop where
  laid : Flowed (Item.Laid style page) item item'
  wellFormed : item'.WellFormed
  solid : item'.text.Solid
  follows : Follows (some item) (some item')
  wrote : Wrote p item'.text q
  written : page.Even → q = p.write item'.text
  fits : ∀ n, item.room = some n → n ≤ page.width - p.column →
    item'.text.hasNewline = false ∧ q.column = p.column + item'.text.width
  again : (item.isText = true → page.Even) → item.FlowsAgain style page depth item' p q

theorem FillPrinted.flowed {style : Style} {page : Page} {depth : Nat} {item item' : Item} {es fs : List Entry}
    {p q : Printed Text Int} (h : FillPrinted style page depth item es p q item' fs) :
    Flowed (Item.Reshaped style) item item' := h.laid.reshaped

theorem Item.InlinePrinted.flowed {style : Style} {page : Page} {depth : Nat} {item item' : Item}
    {p q : Printed Text Int} (h : item.InlinePrinted style page depth p q item') :
    Flowed (Item.Reshaped style) item item' := h.laid.reshaped

theorem Item.Flows.inlinePrinted {style : Style} {item : Item} (h : item.Flows style) (hinline : item.isInline = true)
    (page : Page) (depth : Nat) (mode : Mode) (k : Ahead) (p : Printed Text Int) :
    ∃ item', item.InlinePrinted style page depth p ((item.flow style).run page depth mode k p) item' := by
  obtain ⟨item', hlaid, hwf, hsolid, hfollows, hwrote, -⟩ := h.prints page depth mode k p
  exact ⟨item', hlaid, hwf, hsolid, hfollows, hwrote,
    fun heven => run_flow_of_even heven hinline hlaid.reshaped hwrote,
    fun _ => column_of_fits hinline h.wellFormed hlaid.reshaped hwrote,
    fun heven => flowsAgain hinline h.wellFormed heven hlaid.reshaped hwf hfollows hwrote⟩

section Fills

variable {style : Style} (page : Page) (depth : Nat)

theorem runFill_stays {item : Item} (hitem : item.Flows style) (hinline : item.isInline = true)
    {es : List Entry} (hes : Stays item es) (mode : Mode) (k : Ahead) (p : Printed Text Int) :
    ∃ item' fs, FillPrinted style page depth item es p
      (Doc.runFill page depth mode (item.flow style :: flowParts (Item.flow style) item es) k p) item' fs := by
  rw [flowParts_of_stays hes, Doc.runFill]
  obtain ⟨item', hprinted⟩ := hitem.inlinePrinted hinline page depth
    (Doc.fillMode ((item.flow style).reach true .flat .clear (page.width - p.column))) k p
  refine ⟨item', [], hprinted.laid, hprinted.wellFormed, hprinted.follows.trimmed, ?_,
    fun before before' _ _ => ?_, ?_, ?_, fun heven => ?_, fun heven =>
    ⟨(hprinted.again heven).room, fun n hn hfits => ((hprinted.again heven).fits n hn hfits).1⟩, ?_,
    fun heven _ _ tail rest _ hrest => ⟨?_, fun mode' k' => ?_⟩⟩
  · rw [flowTake_of_stays hes]
    exact .nil
  · rw [flowTake_of_stays hes]
    exact .nil
  · simpa [entriesText] using hprinted.solid
  · simpa [entriesText] using hprinted.wrote
  · simpa [entriesText] using hprinted.written heven
  · rw [flowRest_of_stays hes]
    exact hprinted.follows
  · exact flowRest_of_stays hrest
  · rw [lastOf] at hrest
    rw [settle, List.nil_append, headGap, flowParts_of_stays hrest, Doc.runFill]
    exact (hprinted.again heven).run_eq _ _

/-- Two items that shared a line do so again. Those that did not are now a blank apart, or have several
lines. -/
theorem pairs_again {item item' next next' : Item} {spaced : Bool} {p q : Printed Text Int}
    (hitem : item.FlowsAgain style page depth item' p q)
    (hroom : next'.room = none ∨ next'.room = next.room)
    (hfits : item.pairs next spaced (page.width - p.column) = true → ∀ n, next.room = some n →
      n ≤ page.width - q.column - (if spaced then 1 else 0) → next'.room = some n) :
    item'.pairs next' (spaced || !item.pairs next spaced (page.width - p.column)) (page.width - p.column) =
      item.pairs next spaced (page.width - p.column) := by
  cases hpaired : item.pairs next spaced (page.width - p.column) with
  | true =>
      obtain ⟨m, n, hm, hn, hle⟩ := Item.pairs_iff.1 hpaired
      obtain ⟨hm', hcolumn⟩ := hitem.fits m hm (by split at hle <;> omega)
      have hn' := hfits hpaired n hn (by omega)
      rw [Bool.not_true, Bool.or_false]
      exact Item.pairs_iff.2 ⟨m, n, hm', hn', hle⟩
  | false =>
      rw [Bool.not_false, Bool.or_true, Item.pairs]
      rcases hitem.room with hnone | hsame
      · rw [hnone]; rfl
      rcases hroom with hnone' | hsame'
      · rw [hnone', hsame]; cases item.room <;> rfl
      rw [hsame, hsame']
      rw [Item.pairs] at hpaired
      cases hm : item.room with
      | none => rfl
      | some m =>
          cases hn : next.room with
          | none => rfl
          | some n =>
              rw [hm, hn] at hpaired
              simp only [Option.elim_some, decide_eq_false_iff_not] at hpaired ⊢
              split at hpaired <;> simp <;> omega

theorem head_ne_tab {item : Item} (hwf : item.WellFormed) (hinline : item.isInline = true) (t : Text) :
    (item.text ++ t).head? ≠ some '\t' := by
  cases htext : item.isText with
  | true =>
      obtain ⟨image, rfl⟩ := exists_of_isText htext
      rw [Item.WellFormed] at hwf
      obtain ⟨c, rest, rfl⟩ := List.exists_cons_of_ne_nil hwf.1
      have hc : isBlank c = false := stops_cons.1 hwf.2.1
      rintro ⟨⟩
      cases hc
  | false =>
      obtain ⟨kind, image, rfl⟩ := exists_reference hinline htext
      rw [Item.WellFormed] at hwf
      obtain ⟨body, rfl⟩ := hwf.shape
      rintro ⟨⟩

/-- What is printed for an item and the gap behind it ends where the next item starts. -/
theorem column_gap {item item' next : Item} {spaced paired : Bool} {p q : Printed Text Int} {before : Text}
    (hitem : item.InlinePrinted style page depth p q item') (hinline : item.isInline = true)
    (hpaired : item.pairs next spaced (page.width - p.column) = paired) (hcolumn : p.column = page.columnAt before)
    (ahead : Ahead) :
    ((delimiter spaced).run page depth (Doc.fillMode paired) ahead q).column =
      page.columnAt (before ++ (item'.text ++ lineGap page depth spaced (!paired))) := by
  rw [run_delimiter (hitem.wrote.solid hitem.solid)]
  cases paired with
  | false =>
      rw [← List.append_assoc]
      exact (page.columnAt_newLineText _ depth).symm
  | true =>
      obtain ⟨m, n, hm, -, hle⟩ := Item.pairs_iff.1 hpaired
      obtain ⟨hline, hq⟩ := hitem.fits m hm (by split at hle <;> omega)
      have hgap : (item'.text ++ lineGap page depth spaced false).hasNewline = false := by
        rw [Text.hasNewline_append, hline, hasNewline_lineGap]
        rfl
      have htab := head_ne_tab hitem.wellFormed (hitem.flowed.isInline_eq.trans hinline)
        (lineGap page depth spaced false)
      have hwrite : (q.write (lineGap page depth spaced false)).column =
          q.column + (lineGap page depth spaced false).width := by
        rw [write_text, hasNewline_lineGap]
        rfl
      change (q.write (lineGap page depth spaced false)).column = _
      rw [hwrite, hq, hcolumn, Bool.not_true, page.columnAt_append before hgap htab, Text.width_append]
      omega

/-- One item of a fill in front of what is printed for the others. The delimiter between them is printed
flat if both share a line, and then they do so again. -/
theorem FillPrinted.cons {item item' next : Item} {e : Entry} {rest fs : List Entry} {spaced paired : Bool}
    {ahead : Ahead} {p q r : Printed Text Int} (hitem : item.InlinePrinted style page depth p q item')
    (hinline : item.isInline = true) (hnext : e.item.isInline = true) (hjoint : e.joint item = .flow spaced)
    (hpaired : item.pairs e.item spaced (page.width - p.column) = paired)
    (h : FillPrinted style page depth e.item rest
      ((delimiter spaced).run page depth (Doc.fillMode paired) ahead q) r next fs) :
    FillPrinted style page depth item (e :: rest) p r item'
      (⟨lineGap page depth spaced (!paired), next⟩ :: fs) := by
  have hqsolid := hitem.wrote.solid hitem.solid
  have hdelimiter : Wrote q (lineGap page depth spaced (!paired))
      ((delimiter spaced).run page depth (Doc.fillMode paired) ahead q) := by
    cases paired <;> exact wrote_delimiter hqsolid spaced
  have htexts : entriesText (⟨lineGap page depth spaced (!paired), next⟩ :: fs) =
      lineGap page depth spaced (!paired) ++ (next.text ++ entriesText fs) := by
    simp [entriesText]
  refine ⟨hitem.laid, hitem.wellFormed, hitem.follows.trimmed, ?_, fun before before' hline hcolumn => ?_,
    ?_, ?_, fun heven => ?_, fun heven =>
    ⟨(hitem.again heven).room, fun n hn hfits => ((hitem.again heven).fits n hn hfits).1⟩, ?_,
    fun heven hevens htied tail more htail hmore => ?_⟩
  · rw [flowTake_flow hjoint]
    exact .cons ⟨h.laid, h.wellFormed, h.trimmed, blanks_lineGap page depth spaced (!paired)⟩ h.entries
  · rw [flowTake_flow hjoint, neighboursFrom, neighboursFrom]
    refine .cons ⟨!paired, ?_, fun spaced' hjoint' => ⟨hline, ?_⟩, fun spaced' hjoint' => ?_⟩
      (h.gaps _ _ (by simp [Text.hasNewline_append, hline]) ?_)
    · rw [Neighbours.blanks, Item.endBlanks_of_trimmed hitem.follows.trimmed, Neighbours.joint, hjoint]
      rfl
    · obtain rfl : spaced = spaced' := Joint.flow.inj (hjoint.symm.trans hjoint')
      rw [← hpaired, hcolumn]
    · cases hjoint.symm.trans hjoint'
    · exact column_gap page depth hitem hinline hpaired hcolumn ahead
  · rw [htexts]
    exact (h.solid.append _).append _
  · rw [htexts]
    exact hitem.wrote.trans (hdelimiter.trans h.wrote)
  · have hgap : (delimiter spaced).run page depth (Doc.fillMode paired) ahead q =
        q.write (lineGap page depth spaced (!paired)) := by
      cases paired <;> exact run_delimiter_of_even heven hqsolid spaced
    rw [h.written heven, hgap, hitem.written heven, write_write, write_write, htexts]
  · rw [flowRest_flow hjoint]
    exact h.follows
  · obtain ⟨hrest, hrun⟩ := h.again (hevens e (by simp)) (fun e' he => hevens e' (by simp [he]))
      htied.2 tail more htail hmore
    have hjoint' := @joint_again _ _ hitem.follows e htied.1 next h.flowed.isComment_eq
      h.flowed.isInline_eq page depth (!paired) (headGap tail fs)
    rw [hjoint] at hjoint'
    simp only [Option.map_some, Option.any_some, Joint.gap, Joint.again] at hjoint'
    have hflow : (next.extend (headGap tail fs)).flow style = next.flow style :=
      flow_extend h.wellFormed (blanks_headGap h.entries htail)
    have hpairs := @pairs_again style page depth item item' e.item next spaced p q (hitem.again heven)
      (h.room (hevens e (by simp))).1 fun hfits n hn hle => by
        rw [hpaired] at hfits
        subst hfits
        refine (h.room (hevens e (by simp))).2 n hn ?_
        rw [Doc.fillMode, if_pos rfl, run_delimiter hqsolid]
        rw [← column_lineGap page depth] at hle
        omega
    have hdelimiter' : ∀ ahead', (delimiter (spaced || !paired)).run page depth (Doc.fillMode paired) ahead' q =
        (delimiter spaced).run page depth (Doc.fillMode paired) ahead q := by
      intro ahead'
      rw [run_delimiter hqsolid, run_delimiter hqsolid]
      cases paired <;> simp [Doc.fillMode]
    rw [hpaired] at hpairs
    refine ⟨by rw [settle, List.cons_append]; exact (flowRest_flow hjoint').trans hrest,
      fun mode' k' => ?_⟩
    rw [settle, List.cons_append, headGap, flowParts_flow hjoint', Doc.runFill, Entry.settled, hflow,
      reachAll_pair (hitem.flowed.isInline_eq.trans hinline) (h.flowed.isInline_eq.trans hnext), hpairs,
      (hitem.again heven).run_eq, hdelimiter']
    exact hrun mode' k'

/-- An item that flows and the entries that flow into the text behind it. -/
theorem runFill_flow {item : Item} (hitem : item.Flows style) (hinline : item.isInline = true)
    {es : List Entry} (hes : ∀ e ∈ es, e.item.Flows style) (mode : Mode) (k : Ahead) (p : Printed Text Int) :
    ∃ item' fs, FillPrinted style page depth item es p
      (Doc.runFill page depth mode (item.flow style :: flowParts (Item.flow style) item es) k p) item' fs := by
  induction es generalizing item p with
  | nil => exact runFill_stays page depth hitem hinline (by simp [Stays]) mode k p
  | cons e rest ih =>
      rcases flow_or_stays item e rest with ⟨spaced, hjoint⟩ | hstays
      · have hnext := isInline_of_flow hjoint
        rw [flowParts_flow hjoint, Doc.runFill, reachAll_pair hinline hnext]
        obtain ⟨item', hprinted⟩ := hitem.inlinePrinted hinline page depth
          (Doc.fillMode (item.pairs e.item spaced (page.width - p.column) ||
            Doc.reach true .flat (item.flow style) .clear (page.width - p.column)))
          (Doc.reach false (Doc.fillMode (item.pairs e.item spaced (page.width - p.column))) (delimiter spaced)
            (Doc.reachAll false mode (e.item.flow style :: flowParts (Item.flow style) e.item rest) k)) p
        obtain ⟨next, fs, hfill⟩ := ih (hes e (by simp)) hnext (fun e' he => hes e' (by simp [he])) _
        exact ⟨item', _, FillPrinted.cons page depth hprinted hinline hnext hjoint rfl hfill⟩
      · exact runFill_stays page depth hitem hinline hstays mode k p

end Fills

end Spelled

end XmlTidy
