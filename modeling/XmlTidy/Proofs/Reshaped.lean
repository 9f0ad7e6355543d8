import Mathlib.Data.List.Forall2
import XmlTidy.Proofs.LocatedRanges
import XmlTidy.Proofs.TextPrinting

/-!
What an item may be printed as. A tag keeps its name and has the attributes of the style. Children that are
kept are the same, apart from the tags of the elements among them; children that are reflowed keep
their order, and only the blanks between them and inside of text change. An item and what it is printed
as take up the same room on a line, unless whitespace is ignored.
-/

namespace XmlTidy

namespace Spelled

/-- What holds of all that members of a list are related to holds of the members of a related list. -/
theorem forall_of_forall₂ {α β : Type} {R : α → β → Prop} {as : List α} {bs : List β}
    (h : List.Forall₂ R as bs) {Q : β → Prop} (hQ : ∀ a ∈ as, ∀ b, R a b → Q b) : ∀ b ∈ bs, Q b := by
  induction h with
  | nil => simp
  | cons hab _ ih =>
      intro b hb
      rcases List.mem_cons.1 hb with rfl | hb
      · exact hQ _ (by simp) b hab
      · exact ih (fun a ha => hQ a (by simp [ha])) b hb

/-! ### The relation -/

/-- Pieces that differ at most in the tags of an element. -/
inductive Piece.Reshaped (R : Item → Item → Prop) : Piece → Piece → Prop where
  | range (items : List Item) : Reshaped R (.range items) (.range items)
  | pair (blanks text : Item) : Reshaped R (.pair blanks text) (.pair blanks text)
  | single {item item' : Item} (h : R item item') : Reshaped R (.single item) (.single item')

/-- Children that are reflowed: text keeps its tokens. -/
inductive Flowed (R : Item → Item → Prop) : Item → Item → Prop where
  | text {image image' : Text} (h : image'.tokens = image.tokens) :
      Flowed R (.leaf .text image) (.leaf .text image')
  | other {item item' : Item} (hitem : item.isText = false) (h : R item item') : Flowed R item item'

/-- Whether the children of an element are printed as they stand. -/
def Open.keeps (style : Style) (o : Open) (children : List Item) : Bool :=
  !o.reflows style children || Open.keepsText style children

/-- What is more than blanks. -/
def solids (items : List Item) : List Item := items.filter (! ·.isBlankRun)

/-- What an item may be printed as in a style. -/
inductive Item.Reshaped (style : Style) : Item → Item → Prop where
  | same (item : Item) : Reshaped style item item
  | empty {tag tag' : Open} (htag : tag.Reshaped style tag') : Reshaped style (.empty tag) (.empty tag')
  | emptied {tag tag' : Open} {children : List Item} {endTail : Text} (htag : tag.Reshaped style tag')
      (hblank : solids children = []) (hreflows : children = [] ∨ tag.keeps style children = false) :
      Reshaped style (.full tag children endTail) (.empty tag')
  | kept {tag tag' : Open} {children : List Item} {endTail : Text} {ps : List Piece}
      (htag : tag.Reshaped style tag') (hne : children ≠ []) (hkeeps : tag.keeps style children = true)
      (h : List.Forall₂ (Piece.Reshaped (Reshaped style)) (pieces style.markers true children) ps) :
      Reshaped style (.full tag children endTail) (.full tag' (ps.flatMap Piece.items) [])
  | reflowed {tag tag' : Open} {children children' : List Item} {endTail : Text}
      (htag : tag.Reshaped style tag') (hreflows : tag.keeps style children = false)
      (hne : solids children ≠ []) (hwf : Item.WellFormedAll children')
      (h : List.Forall₂ (Flowed (Reshaped style)) (solids children) (solids children')) :
      Reshaped style (.full tag children endTail) (.full tag' children' [])

/-! ### What stays the same -/

/-- Items that are equal, or elements both. -/
def Item.Alike (item item' : Item) : Prop := item' = item ∨ (item.IsElement ∧ item'.IsElement)

/-- Items that are markers of the same kind, if any. -/
structure Item.SameMarks (markers : Markers) (item item' : Item) : Prop where
  isStart : item'.isStart markers = item.isStart markers
  isStop : item'.isStop markers = item.isStop markers

theorem Item.Reshaped.alike {style : Style} {item item' : Item} (h : item.Reshaped style item') :
    item.Alike item' := by
  cases h with
  | same => exact .inl rfl
  | empty => exact .inr ⟨trivial, trivial⟩
  | emptied => exact .inr ⟨trivial, trivial⟩
  | kept => exact .inr ⟨trivial, trivial⟩
  | reflowed => exact .inr ⟨trivial, trivial⟩

theorem Item.Alike.sameMarks {item item' : Item} (h : item.Alike item') (markers : Markers) :
    item.SameMarks markers item' := by
  rcases h with rfl | ⟨h, h'⟩
  · exact ⟨rfl, rfl⟩
  · cases item with
    | leaf => exact h.elim
    | _ =>
        cases item' with
        | leaf => exact h'.elim
        | _ => exact ⟨rfl, rfl⟩

theorem Item.Alike.isText_eq {item item' : Item} (h : item.Alike item') : item'.isText = item.isText := by
  rcases h with rfl | ⟨h, h'⟩
  · rfl
  · cases item with
    | leaf => exact h.elim
    | _ =>
        cases item' with
        | leaf => exact h'.elim
        | _ => rfl

theorem Item.Alike.isBlankRun_eq {item item' : Item} (h : item.Alike item') :
    item'.isBlankRun = item.isBlankRun := by
  rcases h with rfl | ⟨h, h'⟩
  · rfl
  · cases item with
    | leaf => exact h.elim
    | _ =>
        cases item' with
        | leaf => exact h'.elim
        | _ => rfl

theorem Item.Alike.meets_eq {item item' next next' : Item} (h : item.Alike item') (hnext : next.Alike next') :
    item'.meets next' = item.meets next := by
  rcases h with rfl | ⟨h, h'⟩
  · rcases hnext with rfl | ⟨hn, hn'⟩
    · rfl
    · have hmeets : ∀ n : Item, n.IsElement → item'.meets n = false := by
        intro n hn
        cases n with
        | leaf => exact hn.elim
        | _ => cases item' with
          | leaf cls image => cases cls <;> rfl
          | _ => rfl
      rw [hmeets next hn, hmeets next' hn']
  · have hmeets : ∀ i n : Item, i.IsElement → i.meets n = false := by
      intro i n hi
      cases i with
      | leaf => exact hi.elim
      | _ => rfl
    rw [hmeets item next h, hmeets item' next' h']

theorem Item.Alike.apart {item item' next next' : Item} (h : item.Alike item') (hnext : next.Alike next')
    (hapart : item.Apart next) : item'.Apart next' := by
  rcases h with rfl | ⟨h, h'⟩
  · rcases hnext with rfl | ⟨hn, hn'⟩
    · exact hapart
    · cases next' with
      | leaf => exact hn'.elim
      | _ => cases item' with
        | leaf cls image => cases cls <;> exact trivial
        | _ => exact trivial
  · cases item' with
    | leaf => exact h'.elim
    | _ => exact trivial

section Marks

variable {markers : Markers} {items items' : List Item}

theorem closes_congr (h : List.Forall₂ (Item.SameMarks markers) items items') :
    Item.closes markers items' = Item.closes markers items := by
  induction h with
  | nil => rfl
  | cons hitem _ ih => rw [Item.closes, Item.closes, hitem.isStart, hitem.isStop, ih]

theorem hasRange_congr (h : List.Forall₂ (Item.SameMarks markers) items items') :
    Item.hasRange markers items' = Item.hasRange markers items := by
  induction h with
  | nil => rfl
  | cons hitem hrest ih => rw [Item.hasRange, Item.hasRange, hitem.isStart, closes_congr hrest, ih]

theorem not_marker_of_blank (markers : Markers) {item : Item} (h : item.isBlankRun = true) :
    item.isStart markers = false ∧ item.isStop markers = false := by
  cases item with
  | leaf cls image => cases cls <;> first | exact ⟨rfl, rfl⟩ | simp [Item.isBlankRun] at h
  | _ => exact ⟨rfl, rfl⟩

theorem closes_solids (items : List Item) :
    Item.closes markers (solids items) = Item.closes markers items := by
  induction items with
  | nil => rfl
  | cons item rest ih =>
      rw [solids] at ih ⊢
      cases hblank : item.isBlankRun with
      | true =>
          obtain ⟨hstart, hstop⟩ := not_marker_of_blank markers hblank
          rw [List.filter_cons_of_neg (by simp [hblank]), ih, Item.closes, hstart, hstop]
          simp
      | false =>
          rw [List.filter_cons_of_pos (by simp [hblank]), Item.closes, Item.closes, ih]

/-- Blanks have no part in ranges. -/
theorem hasRange_solids (items : List Item) :
    Item.hasRange markers (solids items) = Item.hasRange markers items := by
  induction items with
  | nil => rfl
  | cons item rest ih =>
      have hcloses := @closes_solids markers rest
      rw [solids] at ih hcloses ⊢
      cases hblank : item.isBlankRun with
      | true =>
          obtain ⟨hstart, -⟩ := not_marker_of_blank markers hblank
          rw [List.filter_cons_of_neg (by simp [hblank]), ih, Item.hasRange, hstart]
          simp
      | false =>
          rw [List.filter_cons_of_pos (by simp [hblank]), Item.hasRange, Item.hasRange, ih, hcloses]

/-- The end of a range does not depend on what follows it. -/
theorem splitStop_of_closes (h : Item.closes markers items = true) (after : List Item) :
    Item.closes markers ((Item.splitStop markers items).1 ++ after) = true ∧
      Item.splitStop markers ((Item.splitStop markers items).1 ++ after) =
        ((Item.splitStop markers items).1, after) := by
  induction items with
  | nil => simp [Item.closes] at h
  | cons item rest ih =>
      rw [Item.closes] at h
      rw [Item.splitStop]
      split at h
      · cases h
      · rename_i hstart
        split at h
        · rename_i hstop
          rw [if_pos hstop]
          simp [Item.closes, Item.splitStop, hstart, hstop]
        · rename_i hstop
          obtain ⟨hcloses, hsplit⟩ := ih h
          rw [if_neg hstop, List.cons_append, Item.closes, if_neg hstart, if_neg hstop, Item.splitStop,
            if_neg hstop, hsplit]
          exact ⟨hcloses, rfl⟩

end Marks

/-! ### Pieces -/

section Pieces

variable {R : Item → Item → Prop} {ps ps' : List Piece}

/-- What holds of each item and what it is printed as, and of each item and itself. -/
theorem forall₂_flatMap {S : Item → Item → Prop} (h : List.Forall₂ (Piece.Reshaped R) ps ps')
    (hsame : ∀ item ∈ ps.flatMap Piece.items, S item item)
    (hR : ∀ item ∈ ps.flatMap Piece.items, ∀ item', R item item' → S item item') :
    List.Forall₂ S (ps.flatMap Piece.items) (ps'.flatMap Piece.items) := by
  induction h with
  | nil => exact .nil
  | @cons piece piece' ps ps' hpiece _ ih =>
      rw [List.flatMap_cons, List.flatMap_cons]
      refine List.rel_append ?_ (ih (fun item hitem => hsame item (by simp [hitem]))
        fun item hitem => hR item (by simp [hitem]))
      have hsame' : ∀ item ∈ piece.items, S item item := fun item hitem => hsame item (by simp [hitem])
      cases hpiece with
      | range items => exact List.forall₂_same.2 hsame'
      | pair blanks text => exact List.forall₂_same.2 hsame'
      | single h => exact .cons (hR _ (by simp [Piece.items]) _ h) .nil

theorem forall₂_alike (hR : ∀ {a b}, R a b → Item.Alike a b) (h : List.Forall₂ (Piece.Reshaped R) ps ps') :
    List.Forall₂ Item.Alike (ps.flatMap Piece.items) (ps'.flatMap Piece.items) :=
  forall₂_flatMap h (fun _ _ => .inl rfl) fun _ _ _ h => hR h

theorem forall₂_sameMarks {items items' : List Item} (h : List.Forall₂ Item.Alike items items')
    (markers : Markers) : List.Forall₂ (Item.SameMarks markers) items items' :=
  h.imp fun _ _ halike => halike.sameMarks markers

theorem any_isText_congr {items items' : List Item} (h : List.Forall₂ Item.Alike items items') :
    items'.any Item.isText = items.any Item.isText := by
  induction h with
  | nil => rfl
  | cons hitem _ ih => rw [List.any_cons, List.any_cons, hitem.isText_eq, ih]

/-- Reshaped pieces are the pieces of their items. -/
theorem pieces_flatMap (hR : ∀ {a b}, R a b → Item.Alike a b) {markers : Markers} {items : List Item}
    (h : List.Forall₂ (Piece.Reshaped R) (pieces markers true items) ps) :
    pieces markers true (ps.flatMap Piece.items) = ps := by
  induction items using pieces_induct markers true generalizing ps with
  | nil =>
      rw [pieces] at h
      cases h
      rw [List.flatMap_nil, pieces]
  | range item rest hrange ih =>
      rw [pieces_range hrange] at h
      obtain ⟨_, ps, hpiece, hrest, rfl⟩ := List.forall₂_cons_left_iff.1 h
      cases hpiece
      simp only [Bool.true_and, Bool.and_eq_true] at hrange
      obtain ⟨hcloses, hsplit⟩ := splitStop_of_closes hrange.2 (ps.flatMap Piece.items)
      rw [List.flatMap_cons, Piece.items, List.cons_append, pieces_range (by simp [hrange.1, hcloses]), hsplit,
        ih hrest]
  | pair item next rest hrange hmeets ih =>
      rw [pieces_pair hrange hmeets] at h
      obtain ⟨_, ps, hpiece, hrest, rfl⟩ := List.forall₂_cons_left_iff.1 h
      cases hpiece
      have hstart := (not_marker_of_blank markers (meets_iff.1 hmeets).1).1
      rw [List.flatMap_cons, Piece.items]
      simp only [List.cons_append, List.nil_append]
      rw [pieces_pair (by simp [hstart]) hmeets, ih hrest]
  | single item rest hrange hmeets ih =>
      rw [pieces_single hrange hmeets] at h
      obtain ⟨_, ps, hpiece, hrest, rfl⟩ := List.forall₂_cons_left_iff.1 h
      cases hpiece with
      | @single _ item' hitem =>
          have halike := forall₂_alike hR hrest
          rw [flatMap_pieces] at halike
          rw [List.flatMap_cons, Piece.items, List.singleton_append, pieces_single, ih hrest]
          · rw [((hR hitem).sameMarks markers).isStart, closes_congr (forall₂_sameMarks halike markers)]
            exact hrange
          · intro next' hnext'
            obtain ⟨rest', hrest'⟩ := List.head?_eq_some_iff.1 hnext'
            rw [hrest'] at halike
            obtain ⟨next, tail, hnext, -, rfl⟩ := List.forall₂_cons_right_iff.1 halike
            rw [(hR hitem).meets_eq hnext]
            exact hmeets next rfl

end Pieces

/-! ### Well-formedness -/

theorem wellFormedAll_of_forall₂ {items items' : List Item} (hitems : Item.WellFormedAll items)
    (h : List.Forall₂ (fun a b => a.Alike b ∧ b.WellFormed) items items') : Item.WellFormedAll items' := by
  induction h with
  | nil => exact .intro
  | @cons item item' rest rest' hitem hrest ih =>
      rw [Item.WellFormedAll] at hitems ⊢
      refine ⟨hitem.2, fun next' hnext' => ?_, ih hitems.2.2⟩
      obtain ⟨tail', rfl⟩ := List.head?_eq_some_iff.1 hnext'
      obtain ⟨next, tail, hnext, -, rfl⟩ := List.forall₂_cons_right_iff.1 hrest
      exact hitem.1.apart hnext.1 (hitems.2.1 next rfl)

/-- What an item is printed as is well formed. -/
theorem Item.Reshaped.wellFormed {style : Style} {item item' : Item} (h : item.Reshaped style item')
    (hitem : item.WellFormed) : item'.WellFormed := by
  induction item using Item.induct generalizing item' with
  | leaf cls image =>
      cases h
      exact hitem
  | empty tag =>
      cases h with
      | same => exact hitem
      | empty htag =>
          rw [Item.WellFormed]
          exact htag.wellFormed
  | full tag children endTail ih =>
      cases h with
      | same => exact hitem
      | emptied htag =>
          rw [Item.WellFormed]
          exact htag.wellFormed
      | reflowed htag _ _ hwf =>
          rw [Item.WellFormed]
          exact ⟨htag.wellFormed, hwf, blanks_nil⟩
      | kept htag _ _ hpieces =>
          rw [Item.WellFormed] at hitem ⊢
          have hforall := @forall₂_flatMap _ _ _ (fun a b => a.Alike b ∧ b.WellFormed) hpieces
          rw [flatMap_pieces] at hforall
          refine ⟨htag.wellFormed, wellFormedAll_of_forall₂ hitem.2.1 (hforall ?_ ?_), blanks_nil⟩
          · exact fun child hchild => ⟨.inl rfl, wellFormed_of_mem hitem.2.1 hchild⟩
          · exact fun child hchild child' h =>
              ⟨h.alike, ih child hchild h (wellFormed_of_mem hitem.2.1 hchild)⟩

end Spelled

end XmlTidy
