import XmlTidy.Proofs.Joints
import XmlTidy.Proofs.Reshaped
import XmlTidy.Proofs.TextWrapping

/-!
Where items are put. Two children of an element that stand next to each other, with nothing but blanks between them,
are neighbours. The joint of the second one says which blanks may be printed between them; whether two items that
flow share a line hangs on the column of the first, which is read off the text before it, and whether a comment
shares the line of a text on the column behind the text. `Item.Laid` says this of all children that are
reflowed in an item.
-/

namespace XmlTidy

open Printed

/-! ### Columns -/

namespace Page

/-- The column at the end of a line. Tabs at its start are its indentation, and each of them counts as wide as a
level of indentation. -/
def columnOf (page : Page) (line : Text) : Nat :=
  if page.useTabs then
    (line.takeWhile (· == '\t')).length * page.tabWidth + Text.width (line.dropWhile (· == '\t'))
  else line.width

/-- The column behind a text. -/
def columnAt (page : Page) (t : Text) : Nat := page.columnOf t.lastLine

/-- What does not start with a tab takes up its width. -/
theorem columnOf_append (page : Page) (line : Text) {t : Text} (h : t.head? ≠ some '\t') :
    page.columnOf (line ++ t) = page.columnOf line + t.width := by
  have hstops : t.takeWhile (· == '\t') = [] ∧ t.dropWhile (· == '\t') = t := by
    cases t with
    | nil => exact ⟨rfl, rfl⟩
    | cons c t =>
        have hc : ¬(c == '\t') = true := by simpa using h
        exact ⟨List.takeWhile_cons_of_neg hc, List.dropWhile_cons_of_neg hc⟩
  unfold columnOf
  split
  · by_cases hall : ∀ c ∈ line, (c == '\t') = true
    · have hline : line.dropWhile (· == '\t') = [] := List.dropWhile_eq_nil_iff.2 hall
      have hempty : Text.width [] = 0 := rfl
      rw [List.takeWhile_append_of_pos hall, List.dropWhile_append_of_pos hall, hstops.1, hstops.2, hline, hempty,
        List.append_nil, List.takeWhile_eq_self_iff.2 hall]
      omega
    · have htake : ¬(line.takeWhile (· == '\t')).length = line.length := by
        intro hlength
        exact hall (List.takeWhile_eq_self_iff.1 ((List.takeWhile_prefix _).eq_of_length hlength))
      have hdrop : line.dropWhile (· == '\t') ≠ [] := fun hnil => hall (List.dropWhile_eq_nil_iff.1 hnil)
      rw [List.takeWhile_append, if_neg htake, List.dropWhile_append, if_neg (by simpa using hdrop), Text.width_append]
      omega
  · exact Text.width_append line t

variable (page : Page)

theorem columnAt_append_of_newline (s : Text) {t : Text} (h : t.hasNewline = true) :
    page.columnAt (s ++ t) = page.columnAt t := by
  rw [columnAt, Text.lastLine_append, if_pos h, columnAt]

theorem columnAt_append (s : Text) {t : Text} (hline : t.hasNewline = false) (htab : t.head? ≠ some '\t') :
    page.columnAt (s ++ t) = page.columnAt s + t.width := by
  rw [columnAt, Text.lastLine_append, if_neg (by simp [hline]), columnOf_append page _ htab, columnAt]

/-- The column behind an indentation. -/
theorem columnAt_newLineText (s : Text) (depth : Nat) :
    (page.columnAt (s ++ newLineText page depth) : Int) = page.ruler.start depth := by
  have hcolumn : page.columnOf (page.indentation depth) = depth * page.tabWidth := by
    rw [columnOf, indentation, blanks]
    split
    · have htabs : ∀ c ∈ List.replicate depth '\t', (c == '\t') = true := fun c hc => by
        simp [List.eq_of_mem_replicate hc]
      rw [List.takeWhile_eq_self_iff.2 htabs, List.dropWhile_eq_nil_iff.2 htabs, List.length_replicate]
      rfl
    · exact Text.width_replicate rfl _
  rw [columnAt_append_of_newline page s (hasNewline_newLineText page depth), columnAt, lastLine_newLineText, hcolumn]
  rfl

/-- On an even page, a line is as wide as it is measured. -/
theorem Even.columnOf_eq {page : Page} (heven : page.Even) (line : Text) : page.columnOf line = line.width := by
  rw [columnOf]
  split
  · next htabs =>
      have htabWidth : page.tabWidth = 1 := heven.resolve_left (by simp [htabs])
      have hone : ∀ c ∈ line.takeWhile (· == '\t'), c = '\t' := fun c hc => by
        simpa using List.mem_takeWhile_imp hc
      have hwidth : Text.width (line.takeWhile (· == '\t')) = (line.takeWhile (· == '\t')).length := by
        rw [List.eq_replicate_of_mem hone, Text.width_replicate rfl, List.length_replicate]
      rw [htabWidth, Nat.mul_one, ← hwidth, ← Text.width_append, List.takeWhile_append_dropWhile]
  · rfl

theorem Even.column_write {page : Page} (heven : page.Even) (p : Printed Text Int) (before : Text) {t : Text}
    (h : t.hasNewline = true) : (p.write t).column = page.columnAt (before ++ t) := by
  rw [columnAt_append_of_newline page before h, columnAt, heven.columnOf_eq, write_text, h]
  rfl

end Page

/-! ### Blanks at the end of a text -/

namespace Text

/-- The blanks at the end of a text. -/
def endBlanks (t : Text) : Text := (t.reverse.takeWhile isBlank).reverse

theorem dropEndWhile_append_endBlanks (t : Text) : t.dropEndWhile isBlank ++ t.endBlanks = t := by
  rw [dropEndWhile, endBlanks, ← List.reverse_append, List.takeWhile_append_dropWhile, List.reverse_reverse]

theorem endsBlank_eq (t : Text) : t.endsBlank = !t.endBlanks.isEmpty := by
  have happend := t.dropEndWhile_append_endBlanks
  rw [endsBlank]
  cases hend : t.endBlanks with
  | nil =>
      rw [hend, List.append_nil] at happend
      simp [happend]
  | cons c blanks =>
      have hne : t ≠ t.dropEndWhile isBlank := by
        intro heq
        rw [← heq, hend] at happend
        simp at happend
      simpa using hne

theorem dropEndWhile_of_trimmed {t : Text} (h : t.endsBlank = false) : t.dropEndWhile isBlank = t := by
  have heq : t = t.dropEndWhile isBlank := by simpa [endsBlank] using h
  exact heq.symm

theorem endBlanks_append {t gap : Text} (h : t.endsBlank = false) (hgap : Blanks gap) :
    endBlanks (t ++ gap) = gap := by
  have hnil : t.endBlanks = [] := by simpa [endsBlank_eq] using h
  rw [endBlanks, List.reverse_eq_nil_iff] at hnil
  rw [endBlanks, List.reverse_append, List.takeWhile_append_of_pos fun c hc => hgap c (List.mem_reverse.1 hc), hnil,
    List.append_nil, List.reverse_reverse]

end Text

namespace Spelled

def Item.endBlanks : Item → Text
  | .leaf .text image => image.endBlanks
  | _ => []

theorem Item.endsBlank_eq (item : Item) : item.endsBlank = !item.endBlanks.isEmpty := by
  cases item with
  | leaf cls image => cases cls <;> first | exact image.endsBlank_eq | rfl
  | _ => rfl

theorem Item.endBlanks_of_not_text {item : Item} (h : item.isText = false) : item.endBlanks = [] := by
  cases item with
  | leaf cls image => cases cls <;> first | rfl | cases h
  | _ => rfl

/-! ### Gaps -/

/-- The blanks for a line that may be broken. -/
def lineGap (page : Page) (depth : Nat) (spaced broken : Bool) : Text :=
  if broken then newLineText page depth else if spaced then [' '] else []

/-- The blanks that are printed for a joint. -/
def Joint.gap (page : Page) (depth : Nat) (broken : Bool) : Joint → Text
  | .blankLine => '\n' :: newLineText page depth
  | .newLine => newLineText page depth
  | .attach spaced | .beside spaced | .flow spaced => lineGap page depth spaced broken

theorem blanks_lineGap (page : Page) (depth : Nat) (spaced broken : Bool) :
    Blanks (lineGap page depth spaced broken) := by
  unfold lineGap
  split
  · exact (isGap_newLineText page depth).1
  · split
    · exact isGap_space.1
    · exact blanks_nil

theorem Joint.blanks_gap (page : Page) (depth : Nat) (broken : Bool) (joint : Joint) :
    Blanks (joint.gap page depth broken) := by
  cases joint with
  | blankLine => exact List.forall_mem_cons.2 ⟨by decide, (isGap_newLineText page depth).1⟩
  | newLine => exact (isGap_newLineText page depth).1
  | attach spaced => exact blanks_lineGap page depth spaced broken
  | beside spaced => exact blanks_lineGap page depth spaced broken
  | flow spaced => exact blanks_lineGap page depth spaced broken

theorem count_newLineText (page : Page) (depth : Nat) : (newLineText page depth).count '\n' = 1 := by
  rw [newLineText, List.count_cons_self,
    List.count_eq_zero.2 (Text.not_mem_of_hasNewline (hasNewline_indentation page depth))]

section LineGap

variable (page : Page) (depth : Nat) (spaced broken : Bool)

theorem hasNewline_lineGap : (lineGap page depth spaced broken).hasNewline = broken := by
  cases broken
  · cases spaced <;> rfl
  · exact hasNewline_newLineText page depth

theorem isEmpty_lineGap : (lineGap page depth spaced broken).isEmpty = !(spaced || broken) := by
  cases broken <;> cases spaced <;> rfl

theorem column_lineGap (q : Printed Text Int) :
    page.width - (q.write (lineGap page depth spaced false)).column =
      page.width - q.column - (if spaced then 1 else 0) := by
  cases spaced
  · simp [lineGap, write_nil]
  · simp [lineGap, write_text, Text.hasNewline, Text.width, Width.ofChar]
    omega

theorem count_lineGap_le : (lineGap page depth spaced broken).count '\n' ≤ 1 := by
  cases broken
  · cases spaced <;> simp [lineGap]
  · exact (count_newLineText page depth).le

end LineGap

/-! ### Room on a line -/

/-- How wide an item that flows is on one line, unless it has several. -/
def Item.room : Item → Option Nat
  | .leaf .text image => textRoom image
  | item => some item.text.width

/-- Whether two items that flow share a line. -/
def Item.pairs (a b : Item) (spaced : Bool) (width : Int) : Bool :=
  a.room.elim false fun m => b.room.elim false fun n => decide (m + (if spaced then 1 else 0) + n ≤ width)

theorem Item.pairs_iff {a b : Item} {spaced : Bool} {width : Int} :
    a.pairs b spaced width = true ↔
      ∃ m n : Nat, a.room = some m ∧ b.room = some n ∧ m + (if spaced then 1 else 0) + n ≤ width := by
  rw [Item.pairs]
  cases a.room with
  | none => simp
  | some m => cases b.room <;> simp

/-! ### Neighbours -/

/-- Two children next to each other: what stands among the children before them, the first, the blanks in front of the
second, and the second. -/
structure Neighbours where
  before : Text
  left : Item
  gap : Text
  right : Item
deriving Repr

/-- The neighbours among an item and the entries behind it. -/
def neighboursFrom (before : Text) (left : Item) : List Entry → List Neighbours
  | [] => []
  | e :: rest => ⟨before, left, e.gap, e.item⟩ :: neighboursFrom (before ++ (left.text ++ e.gap)) e.item rest

/-- The neighbours among entries behind a text. -/
def neighbours (before : Text) : List Entry → List Neighbours
  | [] => []
  | e :: rest => neighboursFrom (before ++ e.gap) e.item rest

namespace Neighbours

def joint (n : Neighbours) : Joint := Entry.joint (some n.left) ⟨n.gap, n.right⟩

/-- The blanks between neighbours, those at the end of a text included. -/
def blanks (n : Neighbours) : Text := n.left.endBlanks ++ n.gap

/-- What stands among the children up to the blanks between neighbours. -/
def front (n : Neighbours) : Text := n.before ++ n.left.text.dropEndWhile isBlank

/-- Neighbours that are printed as others: with blanks between them that their joint allows. Those that flow share a
line just if they fit, from the column of the first one on, which stands behind a line break. A comment shares
the line of a text just if it fits behind it; on a page that is not even, the column there is not what was
measured. -/
def Laid (page : Page) (depth : Nat) (n n' : Neighbours) : Prop :=
  ∃ broken, n'.blanks = n.joint.gap page depth broken ∧
    (∀ spaced, n.joint = .flow spaced → n'.before.hasNewline = true ∧
      broken = !n.left.pairs n.right spaced (page.width - page.columnAt n'.before)) ∧
    (∀ spaced, n.joint = .beside spaced → n.left.isText = true → page.Even → n'.front.hasNewline = true ∧
      (broken = false ↔ page.columnAt n'.front + (if spaced then 1 else 0) + n.right.text.width ≤ page.width))

end Neighbours

/-- What stands before the last of the items behind a text. -/
def beforeLast (before : Text) (left : Item) : List Entry → Text
  | [] => before
  | e :: rest => beforeLast (before ++ (left.text ++ e.gap)) e.item rest

/-- The last item of entries behind an item. -/
def lastOf (item : Item) : List Entry → Item
  | [] => item
  | e :: rest => lastOf e.item rest

theorem neighboursFrom_append (before : Text) (left : Item) (es fs : List Entry) :
    neighboursFrom before left (es ++ fs) =
      neighboursFrom before left es ++ neighboursFrom (beforeLast before left es) (lastOf left es) fs := by
  induction es generalizing before left with
  | nil => rfl
  | cons e rest ih => rw [List.cons_append, neighboursFrom, neighboursFrom, ih, List.cons_append, beforeLast, lastOf]

/-- The neighbours behind an item: the item with the first entry, and those among the entries. -/
theorem neighboursFrom_cons (before : Text) (left : Item) (e : Entry) (rest : List Entry) :
    neighboursFrom before left (e :: rest) =
      ⟨before, left, e.gap, e.item⟩ :: neighbours (before ++ left.text) (e :: rest) := by
  rw [neighboursFrom, neighbours, List.append_assoc]

theorem lastOf_flowTake (item : Item) (es : List Entry) : lastOf item (flowTake item es) = (flowRest item es).1 := by
  induction es generalizing item with
  | nil => rfl
  | cons e rest ih =>
      rcases flow_or_stays item e rest with ⟨spaced, h⟩ | h
      · rw [flowTake_flow h, flowRest_flow h, lastOf, ih]
      · rw [flowTake_of_stays h, flowRest_of_stays h]
        rfl

/-- A first child that is printed as another: a comment stands behind blanks that its joint allows. -/
def Entry.Opens (page : Page) (depth : Nat) (e e' : Entry) : Prop :=
  e.item.isComment = true → ∃ broken, e'.gap = (e.joint none).gap page depth broken

/-! ### Items -/

/-- What an item is printed as on a page: an item that it may be printed as, in which the children that are reflowed
stand where their joints put them. -/
inductive Item.Laid (style : Style) (page : Page) : Item → Item → Prop where
  | leaf (cls : LeafClass) (image : Text) : Laid style page (.leaf cls image) (.leaf cls image)
  | empty {tag tag' : Open} (htag : tag.Reshaped style tag') : Laid style page (.empty tag) (.empty tag')
  | emptied {tag tag' : Open} {children : List Item} {endTail : Text} (htag : tag.Reshaped style tag')
      (hblank : solids children = []) (hreflows : children = [] ∨ tag.keeps style children = false) :
      Laid style page (.full tag children endTail) (.empty tag')
  | kept {tag tag' : Open} {children : List Item} {endTail : Text} {ps : List Piece}
      (htag : tag.Reshaped style tag') (hne : children ≠ []) (hkeeps : tag.keeps style children = true)
      (h : List.Forall₂ (Piece.Reshaped (Laid style page)) (pieces style.markers true children) ps) :
      Laid style page (.full tag children endTail) (.full tag' (ps.flatMap Piece.items) [])
  | reflowed {tag tag' : Open} {children children' : List Item} {endTail : Text} (depth : Nat)
      (htag : tag.Reshaped style tag') (hreflows : tag.keeps style children = false)
      (hne : solids children ≠ []) (hwf : Item.WellFormedAll children')
      (hfirst : ∀ e ∈ (entries [] children).head?, ∀ e' ∈ (entries [] children').head?, e.Opens page depth e')
      (hgaps : List.Forall₂ (Neighbours.Laid page depth) (neighbours [] (entries [] children))
        (neighbours [] (entries [] children')))
      (h : List.Forall₂ (Flowed (Laid style page)) (solids children) (solids children')) :
      Laid style page (.full tag children endTail) (.full tag' children' [])

theorem Flowed.imp {R S : Item → Item → Prop} {item item' : Item} (h : Flowed R item item')
    (hRS : R item item' → S item item') : Flowed S item item' := by
  cases h with
  | text htokens => exact .text htokens
  | other hitem h => exact .other hitem (hRS h)

theorem Piece.Reshaped.imp {R S : Item → Item → Prop} {piece piece' : Piece} (h : piece.Reshaped R piece')
    (hRS : ∀ item ∈ piece.items, ∀ item', R item item' → S item item') : piece.Reshaped S piece' := by
  cases h with
  | range items => exact .range items
  | pair blanks text => exact .pair blanks text
  | single h => exact .single (hRS _ (by simp [Piece.items]) _ h)

/-- What holds of members of a list and what they are related to can be used to relate them in another way. -/
theorem forall₂_imp_mem {α β : Type} {R S : α → β → Prop} {as : List α} {bs : List β} (h : List.Forall₂ R as bs)
    (hRS : ∀ a ∈ as, ∀ b, R a b → S a b) : List.Forall₂ S as bs := by
  have hmem := (List.forall₂_and_left _ _).2 ⟨fun a ha => ha, h⟩
  exact hmem.imp fun a b hab => hRS a hab.1 b hab.2

theorem forall₂_imp_mem_right {α β : Type} {R S : α → β → Prop} {as : List α} {bs : List β}
    (h : List.Forall₂ R as bs) (hRS : ∀ a, ∀ b ∈ bs, R a b → S a b) : List.Forall₂ S as bs := by
  have hflip : List.Forall₂ (flip R) bs as := h.flip
  exact (forall₂_imp_mem hflip fun b hb a hab => hRS a b hb hab).flip

theorem Item.Laid.reshaped {style : Style} {page : Page} {item item' : Item} (h : item.Laid style page item') :
    item.Reshaped style item' := by
  induction item using Item.induct generalizing item' with
  | leaf cls image =>
      cases h
      exact .same _
  | empty tag =>
      cases h with
      | empty htag => exact .empty htag
  | full tag children endTail ih =>
      cases h with
      | emptied htag hblank hreflows => exact .emptied htag hblank hreflows
      | kept htag hne hkeeps hpieces =>
          refine .kept htag hne hkeeps (forall₂_imp_mem hpieces fun piece hpiece piece' h => h.imp ?_)
          intro child hchild child' h
          refine ih child ?_ h
          rw [← flatMap_pieces style.markers true children]
          exact List.mem_flatMap.2 ⟨piece, hpiece, hchild⟩
      | reflowed _ htag hreflows hne hwf _ _ hflowed =>
          refine .reflowed htag hreflows hne hwf (forall₂_imp_mem hflowed fun child hchild child' h => h.imp ?_)
          exact ih child (List.mem_of_mem_filter hchild)

theorem Flowed.reshaped {style : Style} {page : Page} {item item' : Item}
    (h : Flowed (Item.Laid style page) item item') : Flowed (Item.Reshaped style) item item' := h.imp Item.Laid.reshaped

end Spelled

end XmlTidy
