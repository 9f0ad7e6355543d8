import XmlTidy.Proofs.LocatedLayout
import XmlTidy.Proofs.Reshaped

/-!
The room that elements take up on a line. Where children are reflowed there is a line break right behind
the open tag, so that the room depends on the tag alone. Whether the children of an element are kept or
reflowed is the same for what it is printed as.
-/

namespace XmlTidy

namespace Doc

/-! ### Measuring in broken mode -/

theorem reach_grouped_broken (contents : Doc) (k : Ahead) :
    contents.grouped.reach false .broken k = contents.reach false .broken k := by
  rw [grouped, reach]
  split <;> rfl

theorem reach_hardLine (mode : Mode) (k : Ahead) : hardLine.reach false mode k = .clear := by
  simp [hardLine, reach, reachAll]

end Doc

namespace Spelled

/-! ### Children that are reflowed -/

theorem reach_delimiter (spaced : Bool) (k : Ahead) : (delimiter spaced).reach false .broken k = .clear := by
  cases spaced <;> simp [delimiter, Doc.spaceLine, Doc.softLine, Doc.reach]

theorem reach_cluster (layout : Item → Doc) (joint : Joint) (item : Item) (parts : List Doc) (k : Ahead) :
    ((joint.cluster layout item).extend parts).layout.reach false .broken k = .clear := by
  cases joint <;>
    simp [Joint.cluster, Cluster.extend, Cluster.layout, Doc.reach, Doc.reachAll, Doc.reach_hardLine,
      Doc.reach_grouped_broken, reach_delimiter]

/-- A line break follows what stands before clusters. -/
theorem reachAll_clusters (layout : Item → Doc) (previous : Option Item) (es : List Entry) :
    Doc.reachAll false .broken ((clusters layout previous es).map Cluster.layout) .clear = .clear := by
  cases es with
  | nil => rw [clusters]; rfl
  | cons e rest => rw [clusters, List.map_cons, Doc.reachAll, reach_cluster]

theorem reach_attached (spaced : Bool) (comment : Doc) (k : Ahead) :
    (attachedDoc spaced comment).reach false .broken k = .clear := by
  rw [attachedDoc, Doc.reach]
  simp [Doc.isVoid, Doc.grouped, Doc.reach, Doc.reachAll, reach_delimiter]

theorem reachAll_attachment (layout : Item → Doc) (es : List Entry) :
    Doc.reachAll false .broken ((attachment layout es).2.map Cluster.layout) .clear = .clear := by
  cases es with
  | nil => rfl
  | cons e rest =>
      rw [attachment]
      split
      · exact reachAll_clusters ..
      · exact reachAll_clusters ..

/-- What follows the clusters of an element. -/
theorem reachAll_behind_clusters (docs : List Doc) (k : Ahead) :
    Doc.reachAll false .broken (.hardLine :: docs) k = .clear := by
  rw [Doc.reachAll, Doc.reach_hardLine]

theorem reach_openDoc {style : Style} {o : Open} (layout : Item → Doc) (es : List Entry) :
    (o.openDoc style (attachment layout es).1).reach false .broken .clear =
      (o.bareDoc style).reach false .broken .clear := by
  cases es with
  | nil => rfl
  | cons e rest =>
      rw [attachment]
      split
      · simp only [Open.openDoc, List.isEmpty_cons, Bool.false_eq_true, if_false]
        rw [Doc.reach_grouped_broken, Doc.reach, Doc.reachAll, Doc.reachAll, reach_attached]
      · rfl

theorem forces_reflowed {style : Style} {o : Open} {layout : Item → Doc} {e : Entry} {es : List Entry}
    (h : ¬(es = [] ∧ e.item.isText = true)) : (reflowedDoc style o layout (e :: es)).forces = true := by
  rw [reflowedDoc_of_not_single h, Doc.grouped, Doc.forces_group, Doc.forces_concat]
  simp [Doc.hardLine]

/-- Reflowed children take up no room on the line of the open tag. -/
theorem reach_reflowed {style : Style} {o : Open} {layout : Item → Doc} {e : Entry} {es : List Entry}
    (h : ¬(es = [] ∧ e.item.isText = true)) (mode : Mode) (k : Ahead) :
    (reflowedDoc style o layout (e :: es)).reach false mode k =
      (o.bareDoc style).reach false .broken .clear := by
  have hforces := @forces_reflowed style o layout e es h
  rw [reflowedDoc_of_not_single h, Doc.grouped] at hforces ⊢
  rw [Doc.forces_group] at hforces
  rw [Doc.reach, if_pos hforces, if_neg Bool.false_ne_true, Doc.reach, Doc.reachAll, Doc.reachAll,
    reachAll_behind_clusters, Doc.reach, Doc.reach, reachAll_attachment, reach_openDoc]

/-! ### Children that are kept -/

/-- Kept children behind the open tag. They are indented only where whitespace counts. -/
def keptContent (reflows : Bool) (docs : List Doc) : Doc :=
  if reflows then .concat docs else .indent (.grouped (.concat docs))

section Elements

variable {style : Style} {o : Open} {layout : Item → Doc} {children : List Item}

theorem elementDoc_kept (hne : children ≠ []) (hkeeps : o.keeps style children = true) :
    elementDoc style o layout children =
      .grouped (.concat [o.bareDoc style,
        keptContent (o.reflows style children) (keptDocs style.markers layout children), o.closeDoc]) := by
  rw [elementDoc, if_neg (by simpa using hne)]
  rw [Open.keeps] at hkeeps
  cases hreflows : o.reflows style children with
  | false => rfl
  | true =>
      have hkeepsText : Open.keepsText style children = true := by simpa [hreflows] using hkeeps
      rw [hkeepsText]
      rfl

theorem elementDoc_reflowed (hkeeps : o.keeps style children = false) :
    elementDoc style o layout children = reflowedDoc style o layout (entries [] children) := by
  simp only [Open.keeps, Bool.or_eq_false_iff, Bool.not_eq_false'] at hkeeps
  rw [elementDoc, hkeeps.1, hkeeps.2]
  cases children with
  | nil => rfl
  | cons item rest => rfl

end Elements

/-! ### Which children are kept -/

theorem map_item_entries (gap : Text) (items : List Item) : (entries gap items).map Entry.item = solids items := by
  fun_induction entries gap items with
  | case1 => rfl
  | case2 gap image rest ih => exact ih
  | case3 gap item rest hne ih =>
      have hblank : item.isBlankRun = false := by
        cases item with
        | leaf cls image => cases cls <;> first | rfl | exact absurd rfl (hne image)
        | _ => rfl
      rw [List.map_cons, ih, solids, solids, List.filter_cons_of_pos (by simp [hblank])]

theorem any_isText_solids (items : List Item) : (solids items).any Item.isText = items.any Item.isText := by
  induction items with
  | nil => rfl
  | cons item rest ih =>
      rw [solids] at ih ⊢
      cases hblank : item.isBlankRun with
      | true =>
          obtain ⟨image, rfl⟩ := exists_of_isBlankRun hblank
          rw [List.filter_cons_of_neg (by simp [hblank]), ih]
          rfl
      | false => rw [List.filter_cons_of_pos (by simp [hblank]), List.any_cons, List.any_cons, ih]

section Keeps

variable {style : Style} {tag tag' : Open} {children children' : List Item}

theorem Open.Reshaped.reflows_eq (htag : tag.Reshaped style tag')
    (hrange : Item.hasRange style.markers children' = Item.hasRange style.markers children) :
    tag'.reflows style children' = tag.reflows style children := by
  rw [Open.reflows, Open.reflows, htag.any_space, htag.name, hrange]

theorem Open.Reshaped.keeps_eq (htag : tag.Reshaped style tag')
    (hrange : Item.hasRange style.markers children' = Item.hasRange style.markers children)
    (htext : children'.any Item.isText = children.any Item.isText) :
    tag'.keeps style children' = tag.keeps style children := by
  rw [Open.keeps, Open.keeps, htag.reflows_eq hrange, Open.keepsText, Open.keepsText, htext]

/-- Unless whitespace is ignored, text keeps its siblings as they are. -/
theorem not_text_of_not_keeps (hsens : style.sensitivity ≠ .ignore) (h : tag.keeps style children = false) :
    children.any Item.isText = false := by
  rw [Open.keeps, Bool.or_eq_false_iff, Bool.not_eq_false', Open.reflows] at h
  simp only [Bool.and_eq_true, decide_eq_true_eq] at h
  obtain ⟨⟨⟨⟨hstrict, -⟩, -⟩, -⟩, hkeeps⟩ := h
  rw [Open.keepsText, Bool.and_eq_false_iff, decide_eq_false_iff_not] at hkeeps
  rcases hkeeps with hpreserve | htext
  · cases hcase : style.sensitivity with
    | strict => exact absurd hcase hstrict
    | ignore => exact absurd hcase hsens
    | preserve => exact absurd hcase hpreserve
  · exact htext

theorem Flowed.sameMarks {item item' : Item} (h : Flowed (Item.Reshaped style) item item') (markers : Markers) :
    item.SameMarks markers item' := by
  cases h with
  | text => exact ⟨rfl, rfl⟩
  | other _ h => exact h.alike.sameMarks markers

theorem Flowed.isText_eq {item item' : Item} (h : Flowed (Item.Reshaped style) item item') :
    item'.isText = item.isText := by
  cases h with
  | text => rfl
  | other _ h => exact h.alike.isText_eq

theorem hasRange_flowed (h : List.Forall₂ (Flowed (Item.Reshaped style)) (solids children) (solids children'))
    (markers : Markers) : Item.hasRange markers children' = Item.hasRange markers children := by
  rw [← hasRange_solids children', ← hasRange_solids children]
  exact hasRange_congr (h.imp fun _ _ hitem => hitem.sameMarks markers)

theorem any_isText_flowed
    (h : List.Forall₂ (Flowed (Item.Reshaped style)) (solids children) (solids children')) :
    children'.any Item.isText = children.any Item.isText := by
  rw [← any_isText_solids children', ← any_isText_solids children]
  generalize solids children = items at h
  generalize solids children' = items' at h
  induction h with
  | nil => rfl
  | cons hitem _ ih => rw [List.any_cons, List.any_cons, hitem.isText_eq, ih]

end Keeps

/-! ### Items -/

theorem elementDoc_blank {style : Style} {o : Open} {layout : Item → Doc} {children : List Item}
    (hblank : solids children = []) (h : children = [] ∨ o.keeps style children = false) :
    elementDoc style o layout children = o.emptyDoc style := by
  rcases h with rfl | hkeeps
  · rfl
  · have hentries : entries [] children = [] := by
      rw [← List.map_eq_nil_iff (f := Entry.item), map_item_entries, hblank]
    rw [elementDoc_reflowed hkeeps, hentries]
    rfl

theorem exists_entries {children : List Item} (h : solids children ≠ []) :
    ∃ e es, entries [] children = e :: es := by
  rw [← map_item_entries [], ne_eq, List.map_eq_nil_iff] at h
  exact List.exists_cons_of_ne_nil h

/-- The layouts of an element with kept children and of what it is printed as. -/
theorem kept_docs {style : Style} {tag tag' : Open} {children : List Item} {endTail : Text} {ps : List Piece}
    (htag : tag.Reshaped style tag') (hne : children ≠ []) (hkeeps : tag.keeps style children = true)
    (h : List.Forall₂ (Piece.Reshaped (Item.Reshaped style)) (pieces style.markers true children) ps) :
    (Item.full tag children endTail).doc style =
      .grouped (.concat [tag.bareDoc style, keptContent (tag.reflows style children)
        ((pieces style.markers true children).map (Piece.doc (Item.doc style))), tag.closeDoc]) ∧
    (Item.full tag' (ps.flatMap Piece.items) []).doc style =
      .grouped (.concat [tag.bareDoc style, keptContent (tag.reflows style children)
        (ps.map (Piece.doc (Item.doc style))), tag.closeDoc]) := by
  have halike := forall₂_alike Item.Reshaped.alike h
  rw [flatMap_pieces] at halike
  have hrange := hasRange_congr (forall₂_sameMarks halike style.markers)
  have hkeeps' := (htag.keeps_eq hrange (any_isText_congr halike)).trans hkeeps
  have hne' : ps.flatMap Piece.items ≠ [] :=
    List.length_pos_iff.1 (halike.length_eq ▸ List.length_pos_iff.2 hne)
  rw [Item.doc_full, Item.doc_full, elementDoc_kept hne hkeeps, elementDoc_kept hne' hkeeps', htag.bareDoc,
    htag.closeDoc, htag.reflows_eq hrange, keptDocs, keptDocs, pieces_flatMap Item.Reshaped.alike h]
  exact ⟨rfl, rfl⟩

end Spelled

end XmlTidy
