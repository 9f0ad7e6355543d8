import XmlTidy.Proofs.IgnoredElements
import XmlTidy.Proofs.Siblings

/-!
The blanks between siblings in the result of formatting. Where whitespace counts and in ignore ranges they stay what
they were. Elsewhere, siblings with blanks between them stay apart, blank lines are collapsed to one, and
siblings that flow and touch each other stay together if both fit on the line. A comment behind a line end keeps
one in front of it; only behind a text it hangs on whether the comment fits on the line. By induction over the
items that a document is spelled as: each element is printed verbatim, with its children kept, or with
its children reflowed.
-/

namespace XmlTidy

/-- Siblings that fit on one line, from the column where the first of them was printed. -/
def Siblings.Fits (page : Page) (printed : Text) (s s' : Siblings) : Prop :=
  ∃ m k, s.left.room = some m ∧ s.right.room = some k ∧
    page.columnAt (printed.take s'.left.span.first) + (m + k) ≤ page.width

/-- A comment that fits on the line that ends in front of the blanks, behind one of them. -/
def Lead.Fits (page : Page) (printed image : Text) (l : Lead) : Prop :=
  page.columnAt (printed.take (l.node.span.first - l.blanks.length)) + 1 + image.width ≤ page.width

/-- The lead of a child, and what it is printed as in a text. -/
structure Lead.Spaced (style : Style) (page : Page) (printed : Text) (kept : Prop) (l l' : Lead) : Prop where
  node : l.node.SameSkeleton style.sortAttributes l'.node
  same : kept → l'.blanks = l.blanks
  ownLine : ¬kept → l.behindText = false → l.node.comment?.isSome = true → l.blanks.hasNewline = true →
    l'.blanks.hasNewline = true
  beside : ¬kept → l.behindText = true → page.Even → l.blanks ≠ [] → ∀ token ∈ l.node.comment?,
    (l'.blanks.hasNewline = false ↔ l'.Fits page printed token.image)

/-- Siblings, and what they are printed as in a text. -/
structure Siblings.Spaced (style : Style) (page : Page) (printed : Text) (kept : Prop) (s s' : Siblings) : Prop where
  left : s.left.SameSkeleton style.sortAttributes s'.left
  lead : s.lead.Spaced style page printed kept s'.lead
  apart : s.blanks ≠ [] → s'.blanks ≠ []
  lines : ¬kept → s'.blanks.blankLines = if s.left.isText then 0 else min 1 s.blanks.blankLines
  glued : ¬kept → s.Glued → (s'.blanks = [] ↔ s.Fits page printed s')

section Spaced

variable {style : Style} {page : Page} {printed : Text} {kept : Prop} {s s' : Siblings}
  (h : s.Spaced style page printed kept s')
include h

theorem Siblings.Spaced.right : s.right.SameSkeleton style.sortAttributes s'.right := h.lead.node

theorem Siblings.Spaced.same (hkept : kept) : s'.blanks = s.blanks := h.lead.same hkept

end Spaced

/-- Children with the same siblings and leads, up to the blanks between them. Where these are kept, the children show
the same. -/
structure Node.SpacedAll (style : Style) (page : Page) (printed : Text) (kept : Prop) (nodes nodes' : List Node) :
    Prop where
  faces : kept → nodes'.map Node.face = nodes.map Node.face
  siblings : List.Forall₂ (Siblings.Spaced style page printed kept) (Node.siblings nodes) (Node.siblings nodes')
  leads : List.Forall₂ (Lead.Spaced style page printed kept) (Node.leadsFrom none [] nodes)
    (Node.leadsFrom none [] nodes')

/-- Elements with the same children, up to the blanks between them. These are kept if the element is ignored, or if
whitespace counts in it. -/
def Element.Spaced (style : Style) (page : Page) (printed : Text) (ignored : Nat → Bool) (e e' : Element) : Prop :=
  Node.SpacedAll style page printed (ignored e.tag.span.first = true ∨ e.SpaceCounts style) e.children e'.children

namespace Spelled

/-! ### Related neighbours -/

section Neighbours

variable {R : Item → Item → Prop} {G : Text → Text → Prop}

theorem forall₂_neighboursFrom {es es' : List Entry}
    (h : List.Forall₂ (fun e e' => G e.gap e'.gap ∧ R e.item e'.item) es es') {left left' : Item} (hleft : R left left')
    (before before' : Text) :
    List.Forall₂ (fun n n' => R n.left n'.left ∧ G n.gap n'.gap ∧ R n.right n'.right)
      (neighboursFrom before left es) (neighboursFrom before' left' es') := by
  induction h generalizing left left' before before' with
  | nil => exact .nil
  | cons he _ ih => exact .cons ⟨hleft, he⟩ (ih he.2 _ _)

/-- The neighbours among related entries are related. -/
theorem forall₂_neighbours {es es' : List Entry}
    (h : List.Forall₂ (fun e e' => G e.gap e'.gap ∧ R e.item e'.item) es es') (before before' : Text) :
    List.Forall₂ (fun n n' => R n.left n'.left ∧ G n.gap n'.gap ∧ R n.right n'.right)
      (neighbours before es) (neighbours before' es') := by
  cases h with
  | nil => exact .nil
  | cons he hrest => exact forall₂_neighboursFrom hrest he.2 _ _

theorem Item.Alike.eq_of_blank {item item' : Item} (h : item.Alike item') (hblank : item.isBlankRun = true) :
    item' = item := by
  rcases h with rfl | ⟨helement, -⟩
  · rfl
  · obtain ⟨image, rfl⟩ := exists_of_isBlankRun hblank
    exact helement.elim

/-- Items that are kept have the same gaps in front of them. -/
theorem forall₂_entries {items items' : List Item} (h : List.Forall₂ (fun a b => a.Alike b ∧ R a b) items items')
    (gap : Text) :
    List.Forall₂ (fun e e' => e.gap = e'.gap ∧ e.item.Alike e'.item ∧ R e.item e'.item) (entries gap items)
      (entries gap items') := by
  induction h generalizing gap with
  | nil => exact .nil
  | @cons item item' rest rest' hitem _ ih =>
      cases hblank : item.isBlankRun with
      | true =>
          obtain rfl := hitem.1.eq_of_blank hblank
          obtain ⟨image, rfl⟩ := exists_of_isBlankRun hblank
          rw [entries_blank, entries_blank]
          exact ih image
      | false =>
          rw [entries_cons gap hblank, entries_cons gap (hitem.1.isBlankRun_eq.trans hblank)]
          exact .cons ⟨rfl, hitem⟩ (ih [])

theorem forall₂_entries_of_solids {items items' : List Item} (h : List.Forall₂ R (solids items) (solids items')) :
    List.Forall₂ (fun e e' => True ∧ R e.item e'.item) (entries [] items) (entries [] items') := by
  rw [← map_item_entries [], ← map_item_entries [], List.forall₂_map_left_iff, List.forall₂_map_right_iff] at h
  exact h.imp fun _ _ hitem => ⟨trivial, hitem⟩

theorem Item.Alike.endBlanks_eq {item item' : Item} (h : item.Alike item') : item'.endBlanks = item.endBlanks := by
  rcases h with rfl | ⟨h, h'⟩
  · rfl
  · cases item with
    | leaf => exact h.elim
    | _ =>
        cases item' with
        | leaf => exact h'.elim
        | _ => rfl

end Neighbours

/-! ### The children of one element -/

section Siblings

variable {style : Style} {page : Page} {src src' : Source} {printed : Text} {items items' : List Item}

/-- What neighbours have in common, the siblings that are spelled as them have in common. -/
theorem forall₂_siblings {Q : Neighbours → Neighbours → Prop} {S : Siblings → Siblings → Prop}
    (hitems : Item.WellFormedAll items) (hitems' : Item.WellFormedAll items')
    (h : List.Forall₂ Q (neighbours [] (entries [] items)) (neighbours [] (entries [] items'))) (n n' : Nat)
    (hS : ∀ nb nb' s s', Q nb nb' → nb.Found src n (Item.textAll items) s →
      nb'.Found src' n' (Item.textAll items') s' → S s s') :
    List.Forall₂ S (Node.siblings (Item.locateAll src n items)) (Node.siblings (Item.locateAll src' n' items')) := by
  have hfound : List.Forall₂ (flip (flip (Neighbours.Found src n (Item.textAll items))))
      (neighbours [] (entries [] items)) (Node.siblings (Item.locateAll src n items)) := found_siblings hitems
  have hleft := forall₂_trans hfound.flip h (T := fun s nb' => ∃ nb, Q nb nb' ∧
    nb.Found src n (Item.textAll items) s) fun s nb nb' hs hq => ⟨nb, hq, hs⟩
  refine forall₂_trans hleft (found_siblings hitems') ?_
  rintro s nb' s' ⟨nb, hq, hs⟩ hs'
  exact hS nb nb' s s' hq hs hs'

/-- What the first entries have in common and what siblings have in common, the leads have in common. -/
theorem spacedAll_of {kept : Prop} (hitems : Item.WellFormedAll items) (hitems' : Item.WellFormedAll items')
    (hfaces : kept → items'.map Item.face = items.map Item.face)
    {E : Entry → Entry → Prop} (hentries : List.Forall₂ E (entries [] items) (entries [] items')) {n n' : Nat}
    (hfirst : ∀ e ∈ (entries [] items).head?, ∀ e' ∈ (entries [] items').head?, E e e' →
      (e.lead src n).Spaced style page printed kept (e'.lead src' n'))
    (hsiblings : List.Forall₂ (Siblings.Spaced style page printed kept) (Node.siblings (Item.locateAll src n items))
      (Node.siblings (Item.locateAll src' n' items'))) :
    Node.SpacedAll style page printed kept (Item.locateAll src n items) (Item.locateAll src' n' items') := by
  refine ⟨fun hkept => ?_, hsiblings, ?_⟩
  · rw [map_face_locateAll, map_face_locateAll, hfaces hkept]
  rw [leadsFrom_locateAll hitems, leadsFrom_locateAll hitems']
  refine List.rel_append ?_ ?_
  · generalize entries [] items = es, entries [] items' = es' at hentries hfirst ⊢
    cases hentries with
    | nil => exact .nil
    | cons he _ => exact .cons (hfirst _ rfl _ rfl he) .nil
  · rw [List.forall₂_map_left_iff, List.forall₂_map_right_iff]
    exact hsiblings.imp fun _ _ hs => hs.lead

theorem Flowed.sameSkeleton {item item' : Item} (h : Flowed (Item.Reshaped style) item item')
    (hblank : item.isBlankRun = false) (n n' : Nat) :
    Node.SameSkeleton style.sortAttributes (item.locate src n) (item'.locate src' n') := by
  cases h with
  | text h => exact .text rfl rfl h.symm
  | other _ h => exact h.sameSkeleton hblank n n'

theorem spacedAll_of_blank {kept : Prop} (hitems : Item.WellFormedAll items) (hkept : kept → items = [])
    (hblank : solids items = []) (n : Nat) :
    Node.SpacedAll style page printed kept (Item.locateAll src n items) [] := by
  have hfound := @found_siblings src n items hitems
  rw [← map_item_entries [], List.map_eq_nil_iff] at hblank
  rw [hblank, neighbours, List.forall₂_nil_left_iff] at hfound
  refine ⟨fun h => ?_, by rw [hfound]; exact .nil, ?_⟩
  · rw [hkept h]
    rfl
  · rw [leadsFrom_locateAll hitems, hblank, hfound]
    exact .nil

/-- Children that are kept. -/
theorem spaced_kept {kept : Prop} (hkept : kept) (hitems : Item.WellFormedAll items)
    (hitems' : Item.WellFormedAll items')
    (h : List.Forall₂ (fun a b => a.Alike b ∧ a.Reshaped style b) items items') (n n' : Nat) :
    Node.SpacedAll style page printed kept (Item.locateAll src n items) (Item.locateAll src' n' items') := by
  have hlead : ∀ {l l' : Lead}, l.node.SameSkeleton style.sortAttributes l'.node → l'.blanks = l.blanks →
      l.Spaced style page printed kept l' := fun hnode hblanks =>
    ⟨hnode, fun _ => hblanks, fun hnot => absurd hkept hnot, fun hnot => absurd hkept hnot⟩
  have hentries := forall₂_entries h []
  have hneighbours := forall₂_neighbours (R := fun a b => a.Alike b ∧ a.Reshaped style b) (G := Eq) hentries [] []
  refine spacedAll_of hitems hitems' (fun _ => map_face_of_forall₂ h) hentries ?_
    (forall₂_siblings hitems hitems' hneighbours n n' ?_)
  · rintro e he e' - ⟨hgap, -, hitem⟩
    exact hlead (hitem.sameSkeleton (not_blank_of_mem_entries (List.mem_of_mem_head? he)) _ _) hgap.symm
  · rintro nb nb' s s' ⟨hleft, hgap, hright⟩ hs hs'
    have hblanks : s'.blanks = s.blanks := by
      rw [hs'.blanks, hs.blanks, Neighbours.blanks, Neighbours.blanks, hleft.1.endBlanks_eq, hgap]
    refine ⟨?_, hlead ?_ hblanks, fun hne => hblanks ▸ hne, fun hnot => absurd hkept hnot,
      fun hnot => absurd hkept hnot⟩
    · rw [hs.left, hs'.left]
      exact hleft.2.sameSkeleton hs.solid.1 _ _
    · rw [Siblings.lead, Siblings.lead, hs.right, hs'.right]
      exact hright.2.sameSkeleton hs.solid.2 _ _

/-- What stands before an item in a printed text. -/
theorem take_printed {pre post before text : Text} (h : before <+: text) (hprinted : printed = pre ++ (text ++ post)) :
    printed.take (pre.length + before.length) = pre ++ before := by
  obtain ⟨after, rfl⟩ := h
  rw [hprinted, ← List.length_append, List.append_assoc, ← List.append_assoc pre, List.take_left]

theorem Item.isComment_of_mem {item : Item} {src : Source} {n : Nat} {token : Token}
    (h : token ∈ (item.locate src n).comment?) : item.isComment = true ∧ token.image = item.text := by
  have hlocate := comment?_locate src n item
  rw [Option.mem_def.1 h, Option.map_some] at hlocate
  split at hlocate
  · next hcomment => exact ⟨hcomment, Option.some.inj hlocate⟩
  · cases hlocate

/-- The leads of siblings that are reflowed. -/
theorem Neighbours.Laid.spaced_lead {kept : Prop} (hkept : ¬kept) {depth : Nat} {nb nb' : Neighbours}
    {s s' : Siblings} (hlaid : nb.Laid page depth nb') (hright : Flowed (Item.Laid style page) nb.right nb'.right)
    {n : Nat} {text text' pre post : Text} (hs : nb.Found src n text s) (hs' : nb'.Found src' pre.length text' s')
    (hprinted : printed = pre ++ (text' ++ post)) : s.lead.Spaced style page printed kept s'.lead := by
  have hbehind : s.lead.behindText = nb.left.isText := by
    rw [Lead.behindText, Siblings.lead, hs.left, Option.any_some, isText_locate]
  refine ⟨?_, fun hk => absurd hk hkept, fun _ hnot hcomment hline => ?_, fun _ htext heven hblanks token htoken => ?_⟩
  · rw [Siblings.lead, Siblings.lead, hs.right, hs'.right]
    exact hright.reshaped.sameSkeleton hs.solid.2 _ _
  · rw [hbehind] at hnot
    rw [Siblings.lead, hs.right] at hcomment
    obtain ⟨token, htoken⟩ := Option.isSome_iff_exists.1 hcomment
    rw [Siblings.lead, hs.blanks, Neighbours.blanks, Item.endBlanks_of_not_text hnot] at hline
    rw [Siblings.lead, hs'.blanks]
    exact hlaid.hasNewline (Item.isComment_of_mem htoken).1 hline
  · rw [hbehind] at htext
    rw [Siblings.lead, hs.right] at htoken
    obtain ⟨hcomment, himage⟩ := Item.isComment_of_mem htoken
    rw [Siblings.lead, hs.blanks] at hblanks
    obtain ⟨hline, hfits⟩ := hlaid.beside_iff htext hcomment (hs.tied htext) hblanks heven
    have hfront := hs'.front_append
    have hplace : s'.right.span.first - s'.blanks.length = pre.length + nb'.front.length := by
      rw [hs'.right, first_locate, ← hfront, List.length_append]
      omega
    have hupTo : nb'.front <+: text' := (List.prefix_append _ s'.blanks).trans (hfront ▸ hs'.upTo)
    rw [Siblings.lead, Lead.Fits, hplace, take_printed hupTo hprinted, page.columnAt_append_of_newline pre hline,
      himage, hs'.blanks]
    exact hfits

/-- Siblings that are reflowed. -/
theorem Neighbours.Laid.spaced {kept : Prop} (hkept : ¬kept) {depth : Nat} {nb nb' : Neighbours} {s s' : Siblings}
    (hlaid : nb.Laid page depth nb') (hleft : Flowed (Item.Laid style page) nb.left nb'.left)
    (hright : Flowed (Item.Laid style page) nb.right nb'.right) {n : Nat} {text text' pre post : Text}
    (hs : nb.Found src n text s) (hs' : nb'.Found src' pre.length text' s')
    (hprinted : printed = pre ++ (text' ++ post)) : s.Spaced style page printed kept s' := by
  refine ⟨?_, hlaid.spaced_lead hkept hright hs hs' hprinted, ?_, fun _ => ?_, ?_⟩
  · rw [hs.left, hs'.left]
    exact hleft.reshaped.sameSkeleton hs.solid.1 _ _
  · rw [hs.blanks, hs'.blanks]
    exact hlaid.apart
  · rw [hs'.blanks, hlaid.blankLines_eq, hs.lineEnds_eq]
  · rintro - ⟨hinline, hinline', hnil⟩
    rw [hs.left, isInline_locate] at hinline
    rw [hs.right, isInline_locate] at hinline'
    rw [hs.blanks] at hnil
    obtain ⟨hline, hglued⟩ := hlaid.glued_iff hinline hinline' hnil
    rw [hs'.blanks, hglued, Siblings.Fits, hs.left, hs'.left, hs.right, room_locate _ _ _ hinline,
      room_locate _ _ _ hinline', first_locate, take_printed hs'.before hprinted,
      page.columnAt_append_of_newline pre hline]
    refine exists_congr fun a => exists_congr fun b => and_congr_right fun _ => and_congr_right fun _ => ?_
    omega

/-- Children that are reflowed. -/
theorem spaced_reflowed {kept : Prop} (hkept : ¬kept) (hitems : Item.WellFormedAll items)
    (hitems' : Item.WellFormedAll items') {depth : Nat}
    (hopens : ∀ e ∈ (entries [] items).head?, ∀ e' ∈ (entries [] items').head?, e.Opens page depth e')
    (hgaps : List.Forall₂ (Neighbours.Laid page depth) (neighbours [] (entries [] items))
      (neighbours [] (entries [] items')))
    (h : List.Forall₂ (Flowed (Item.Laid style page)) (solids items) (solids items')) {pre post : Text}
    (hprinted : printed = pre ++ (Item.textAll items' ++ post)) (n : Nat) :
    Node.SpacedAll style page printed kept (Item.locateAll src n items) (Item.locateAll src' pre.length items') := by
  have hentries := forall₂_entries_of_solids h
  have hitemsAll := forall₂_neighbours (G := fun _ _ => True) hentries [] []
  have hall := hgaps.mp (fun n n' hgap hflowed => And.intro hgap hflowed) hitemsAll
  refine spacedAll_of hitems hitems' (fun hk => absurd hk hkept) hentries ?_
    (forall₂_siblings hitems hitems' hall n _ ?_)
  · rintro e he e' he' ⟨-, hitem⟩
    have hblank := not_blank_of_mem_entries (List.mem_of_mem_head? he)
    refine ⟨hitem.reshaped.sameSkeleton hblank _ _, fun hk => absurd hk hkept, fun _ _ hcomment hline => ?_, ?_⟩
    · obtain ⟨token, htoken⟩ := Option.isSome_iff_exists.1 hcomment
      have hcomment := (Item.isComment_of_mem htoken).1
      obtain ⟨broken, hgap⟩ := hopens e he e' he' hcomment
      have hjoint : e.joint none = .newLine := by
        rw [joint_none, hcomment, if_pos rfl]
        exact if_pos hline
      rw [Entry.lead, hgap, hjoint]
      exact Printed.hasNewline_newLineText page depth
    · rintro - ⟨⟩
  · rintro nb nb' s s' ⟨hlaid, hleft, -, hright⟩ hs hs'
    exact hlaid.spaced hkept hleft hright hs hs' hprinted

end Siblings

/-! ### The elements of an item -/

section Elements

open IgnoreRange

variable {style : Style} {page : Page} {src src' : Source} {printed : Text} {ignored : Nat → Bool}

theorem spaced_verbatimAll {items : List Item}
    (h : ∀ item ∈ items, ∀ n n', (∀ offset, n ≤ offset → offset < n + item.text.length → ignored offset = true) →
      List.Forall₂ (Element.Spaced style page printed ignored) (item.locate src n).elements
        (item.locate src' n').elements)
    {n : Nat} (hignored : ∀ offset, n ≤ offset → offset < n + (Item.textAll items).length → ignored offset = true)
    (n' : Nat) :
    List.Forall₂ (Element.Spaced style page printed ignored) ((Item.locateAll src n items).flatMap Node.elements)
      ((Item.locateAll src' n' items).flatMap Node.elements) := by
  induction items generalizing n n' with
  | nil => exact .nil
  | cons item rest ih =>
      rw [Item.textAll, List.length_append] at hignored
      rw [Item.locateAll, Item.locateAll, List.flatMap_cons, List.flatMap_cons]
      refine List.rel_append (h item (by simp) n n' fun offset hn hm => hignored offset hn (by omega)) ?_
      exact ih (fun item' hitem => h item' (by simp [hitem]))
        (fun offset hn hm => hignored offset (by omega) (by omega)) _

/-- The elements of an item that is printed verbatim. -/
theorem spaced_verbatim {item : Item} (hitem : item.WellFormed) {n : Nat}
    (hignored : ∀ offset, n ≤ offset → offset < n + item.text.length → ignored offset = true) (n' : Nat) :
    List.Forall₂ (Element.Spaced style page printed ignored) (item.locate src n).elements
      (item.locate src' n').elements := by
  induction item using Item.induct generalizing n n' with
  | leaf cls image =>
      rw [elements_locate_leaf, elements_locate_leaf]
      exact .nil
  | empty tag =>
      rw [Item.locate, Item.locate, elements_empty, elements_empty]
      exact .cons ⟨fun _ => rfl, .nil, .nil⟩ .nil
  | full tag children endTail ih =>
      rw [Item.WellFormed] at hitem
      have hlength := length_full tag children endTail
      have hkept := hignored n (Nat.le_refl n) (by omega)
      rw [Item.locate, Item.locate, elements_locateAll, elements_locateAll]
      refine .cons (spaced_kept (.inl hkept) hitem.2.1 hitem.2.1 (List.forall₂_same.2 fun child _ => ?_) _ _) ?_
      · exact ⟨.inl rfl, .same child⟩
      · exact spaced_verbatimAll (fun child hchild m m' h => ih child hchild (wellFormed_of_mem hitem.2.1 hchild) h m')
          (fun offset hn hm => hignored offset (by omega) (by omega)) _

/-- An item whose elements are spaced in whatever is printed for it, where no range around it holds it. -/
def Item.Spaces (style : Style) (page : Page) (src src' : Source) (printed : Text) (ignored : Nat → Bool)
    (item : Item) : Prop :=
  ∀ item' n pre post, item.Laid style page item' → printed = pre ++ (item'.text ++ post) →
    Governs style.markers src ignored [] n [item] →
    List.Forall₂ (Element.Spaced style page printed ignored) (item.locate src n).elements
      (item'.locate src' pre.length).elements

/-- One piece in front of others. What stands in the ranges around the later items stands in the later ranges. -/
theorem spaced_cons (piece : Piece) {piece' : Piece} {rest : List Item} {ps : List Piece} {own : List IgnoreRange}
    {n : Nat} {pre post : Text} (hitems : ∀ item ∈ piece.items ++ rest, item.WellFormed)
    (hgoverns : Governs style.markers src ignored own n (piece.items ++ rest))
    (hown : ∀ offset, n ≤ offset →
      covers own offset = covers (rangesAt src n (piece :: pieces style.markers true rest)) offset)
    (hprinted : printed = pre ++ (Item.textAll ((piece' :: ps).flatMap Piece.items) ++ post))
    (hhead : ∀ post, Governs style.markers src ignored own n piece.items → printed = pre ++ (piece'.text ++ post) →
      List.Forall₂ (Element.Spaced style page printed ignored)
        ((Item.locateAll src n piece.items).flatMap Node.elements)
        ((Item.locateAll src' pre.length piece'.items).flatMap Node.elements))
    (htail : ∀ n pre, Governs style.markers src ignored own n rest →
      (∀ offset, n ≤ offset →
        covers own offset = covers (rangesAt src n (pieces style.markers true rest)) offset) →
      printed = pre ++ (Item.textAll (ps.flatMap Piece.items) ++ post) →
      List.Forall₂ (Element.Spaced style page printed ignored) ((Item.locateAll src n rest).flatMap Node.elements)
        ((Item.locateAll src' pre.length (ps.flatMap Piece.items)).flatMap Node.elements)) :
    List.Forall₂ (Element.Spaced style page printed ignored)
      ((Item.locateAll src n (piece.items ++ rest)).flatMap Node.elements)
      ((Item.locateAll src' pre.length ((piece' :: ps).flatMap Piece.items)).flatMap Node.elements) := by
  obtain ⟨hfirst, hrest⟩ := hgoverns.split (fun item hitem => hitems item (by simp [hitem]))
    fun item hitem => hitems item (by simp [hitem])
  rw [List.flatMap_cons, textAll_append, List.append_assoc] at hprinted
  rw [List.flatMap_cons, locateAll_append, locateAll_append, List.flatMap_append, List.flatMap_append,
    ← List.length_append]
  refine List.rel_append (hhead _ hfirst hprinted) (htail _ _ hrest (fun offset hn => ?_) ?_)
  · rw [hown offset (Nat.le_trans (Nat.le_add_right _ _) hn), covers_rangesAt_cons hn]
    rfl
  · rw [hprinted, List.append_assoc]

/-- The elements among children that are kept. -/
theorem spaced_pieces {items : List Item} {ps : List Piece}
    (h : List.Forall₂ (Piece.Reshaped (Item.Laid style page)) (pieces style.markers true items) ps)
    (hitems : ∀ item ∈ items, item.WellFormed ∧ item.Spaces style page src src' printed ignored)
    {own : List IgnoreRange} {n : Nat} (hgoverns : Governs style.markers src ignored own n items)
    (hown : ∀ offset, n ≤ offset →
      covers own offset = covers (rangesAt src n (pieces style.markers true items)) offset)
    {pre post : Text} (hprinted : printed = pre ++ (Item.textAll (ps.flatMap Piece.items) ++ post)) :
    List.Forall₂ (Element.Spaced style page printed ignored) ((Item.locateAll src n items).flatMap Node.elements)
      ((Item.locateAll src' pre.length (ps.flatMap Piece.items)).flatMap Node.elements) := by
  induction items using pieces_induct style.markers true generalizing ps n pre with
  | nil =>
      rw [pieces] at h
      cases h
      exact .nil
  | range item rest hrange ih =>
      rw [pieces_range hrange] at h hown
      obtain ⟨piece, ps, hpiece, hrest, rfl⟩ := List.forall₂_cons_left_iff.1 h
      have hsplit : item :: rest = (Piece.range (item :: (Item.splitStop style.markers rest).1)).items ++
          (Item.splitStop style.markers rest).2 := by
        rw [Piece.items, List.cons_append, Item.splitStop_append]
      rw [hsplit] at hitems hgoverns ⊢
      cases hpiece
      refine spaced_cons (.range (item :: (Item.splitStop style.markers rest).1))
        (fun child hchild => (hitems child hchild).1) hgoverns hown hprinted (fun _ hfirst _ => ?_)
          fun m pre' h hown' => ih hrest (fun child hchild => hitems child (List.mem_append_right _ hchild)) h hown'
      refine spaced_verbatimAll (fun child hchild m m' => ?_) (fun offset hn hm => ?_) _
      · exact fun hignored => spaced_verbatim (hitems child (List.mem_append_left _ hchild)).1 hignored m'
      · have hcovers := (hown offset hn).trans (covers_rangesAt_range hn hm _)
        rw [hfirst offset hn hm, hcovers, Bool.true_or]
  | pair item next rest hrange hmeets ih =>
      rw [pieces_pair hrange hmeets] at h hown
      obtain ⟨piece, ps, hpiece, hrest, rfl⟩ := List.forall₂_cons_left_iff.1 h
      cases hpiece
      refine spaced_cons (.pair item next) (fun child hchild => (hitems child hchild).1) hgoverns hown hprinted
        (fun _ _ _ => ?_) fun m pre' h hown' => ih hrest (fun child hchild => hitems child (by simp [hchild])) h hown'
      obtain ⟨hblank, htext, -⟩ := meets_iff.1 hmeets
      obtain ⟨blanks, rfl⟩ := exists_of_isBlankRun hblank
      obtain ⟨image, rfl⟩ := exists_of_isText htext
      simp only [Piece.items, Item.locateAll, List.flatMap_cons, elements_locate_leaf, List.flatMap_nil,
        List.append_nil]
      exact .nil
  | single item rest hrange hmeets ih =>
      rw [pieces_single hrange hmeets] at h hown
      obtain ⟨piece, ps, hpiece, hrest, rfl⟩ := List.forall₂_cons_left_iff.1 h
      refine spaced_cons (.single item) (fun child hchild => (hitems child hchild).1) hgoverns hown hprinted
        (fun post' hfirst hprinted' => ?_)
          fun m pre' h hown' => ih hrest (fun child hchild => hitems child (by simp [hchild])) h hown'
      cases hpiece with
      | @single _ item' hlaid =>
          have hapart : Governs style.markers src ignored [] n [item] := by
            refine hfirst.of_apart fun offset hn hm => ?_
            have hlater := @within_rangesAt src (n + (Piece.single item).text.length) (pieces style.markers true rest)
            exact (hown offset hn).trans (hlater.covers_eq_false (.inl hm))
          rw [Piece.text, Piece.items, textAll_singleton] at hprinted'
          simp only [Piece.items, Item.locateAll, List.flatMap_cons, List.flatMap_nil, List.append_nil]
          exact (hitems item (by simp)).2 item' n pre post' hlaid hprinted' hapart

/-- The elements among children that are reflowed: they have no ranges. -/
theorem spaced_solids {items items' : List Item}
    (h : List.Forall₂ (Flowed (Item.Laid style page)) (solids items) (solids items'))
    (hitems : ∀ item ∈ items, item.WellFormed ∧ item.Spaces style page src src' printed ignored) {n : Nat}
    (hgoverns : Governs style.markers src ignored [] n items) {pre post : Text}
    (hprinted : printed = pre ++ (Item.textAll items' ++ post)) :
    List.Forall₂ (fun a b : Node => List.Forall₂ (Element.Spaced style page printed ignored) a.elements b.elements)
      (Node.solids (Item.locateAll src n items)) (Node.solids (Item.locateAll src' pre.length items')) := by
  refine forall₂_locateAll_at h n pre.length ?_
  rintro before item after rfl - before' item' after' rfl hitem
  cases hitem with
  | text =>
      rw [elements_locate_leaf, elements_locate_leaf]
      exact .nil
  | other _ hlaid =>
      have hwf : ∀ child ∈ before ++ item :: after, child.WellFormed := fun child hchild => (hitems child hchild).1
      obtain ⟨-, hbehind⟩ := hgoverns.split (fun child hchild => hwf child (by simp [hchild]))
        fun child hchild => hwf child (List.mem_append_right _ hchild)
      rw [← List.singleton_append] at hbehind
      obtain ⟨hself, -⟩ := hbehind.split (fun child hchild => hwf child (by simp [List.mem_singleton.1 hchild]))
        fun child hchild => hwf child (by simp [hchild])
      rw [textAll_append, Item.textAll, List.append_assoc, List.append_assoc] at hprinted
      rw [← List.length_append]
      exact (hitems item (by simp)).2 item' _ _ _ hlaid (by rw [hprinted, List.append_assoc]) hself

/-- The elements of an item are spaced in whatever is printed for it. -/
theorem Item.WellFormed.spaces {item : Item} (h : item.WellFormed) :
    item.Spaces style page src src' printed ignored := by
  induction item using Item.induct with
  | leaf cls image =>
      intro item' n pre post hlaid _ _
      cases hlaid
      rw [elements_locate_leaf, elements_locate_leaf]
      exact .nil
  | empty tag =>
      intro item' n pre post hlaid _ _
      cases hlaid
      rw [Item.locate, Item.locate, elements_empty, elements_empty]
      exact .cons ⟨fun _ => rfl, .nil, .nil⟩ .nil
  | full tag children endTail ih =>
      intro item' n pre post hlaid hprinted hgoverns
      rw [Item.WellFormed] at h
      have hchildren : ∀ child ∈ children, child.WellFormed ∧ child.Spaces style page src src' printed ignored :=
        fun child hchild => ⟨wellFormed_of_mem h.2.1 hchild, ih child hchild (wellFormed_of_mem h.2.1 hchild)⟩
      have hwf' := hlaid.reshaped.wellFormed (by rwa [Item.WellFormed])
      have hinside := hgoverns.children h.2.1
      -- an element that is laid out anew stands in no range, and whitespace does not count in it
      have hreflowed : tag.keeps style children = false → ∀ t : Tag, TagOf tag t → ¬(ignored n = true ∨
          Element.SpaceCounts style ⟨t, Item.locateAll src (n + (tag.text.length + 1)) children⟩) := by
        intro hkeeps t ht
        rw [spaceCounts_iff ht h.2.1, hkeeps, hgoverns.not_ignored h.2.1]
        simp
      cases hlaid with
      | emptied htag hblank hreflows =>
          have hnil := forall₂_solids_locateAll src (n + (tag.text.length + 1)) children
          rw [hblank, List.forall₂_nil_left_iff] at hnil
          rw [Item.locate, Item.locate, elements_locateAll, elements_empty, flatMap_elements_solids, hnil]
          refine .cons (spacedAll_of_blank h.2.1 (fun hkept => ?_) hblank _) .nil
          exact hreflows.resolve_right fun hkeeps => hreflowed hkeeps _ ⟨rfl, map_pair_locateAll ..⟩ hkept
      | kept htag hne hkeeps hpieces =>
          obtain ⟨hprinted', hlength⟩ := split_full hprinted
          rw [Item.WellFormed] at hwf'
          rw [Item.locate, Item.locate, hlength, elements_locateAll, elements_locateAll]
          have hreshaped := Piece.forall₂_reshaped
            (hpieces.imp fun _ _ hpiece => hpiece.imp fun _ _ _ hlaid => hlaid.reshaped)
          refine .cons (spaced_kept (.inr ?_) h.2.1 hwf'.2.1 hreshaped _ _)
            (spaced_pieces hpieces hchildren hinside (fun _ _ => rfl) hprinted')
          exact (spaceCounts_iff ⟨rfl, map_pair_locateAll ..⟩ h.2.1 src _).2 hkeeps
      | reflowed depth htag hkeeps hne hwf hopens hgaps hflowed =>
          obtain ⟨hprinted', hlength⟩ := split_full hprinted
          rw [rangesAt_of_not_hasRange (hasRange_of_keeps hkeeps)] at hinside
          rw [Item.locate, Item.locate, hlength]
          refine forall₂_elements (spaced_reflowed ?_ h.2.1 hwf hopens hgaps hflowed hprinted' _)
            (spaced_solids hflowed hchildren hinside hprinted')
          exact hreflowed hkeeps _ ⟨rfl, map_pair_locateAll ..⟩

end Elements

/-! ### Documents -/

theorem spaced_topNodesAt {style : Style} {page : Page} {src src' : Source} {printed : Text} {ignored : Nat → Bool}
    {tops tops' : List (Text × Top)}
    (h : List.Forall₂ (Top.Laid style page) (tops.map Prod.snd) (tops'.map Prod.snd))
    (htops : ∀ top ∈ tops, top.2.WellFormed) {n : Nat}
    (hroot : ∀ node, .root node ∈ topNodesAt src n tops → ignored = IgnoreRange.covers (node.ranges style.markers))
    {pre post : Text} (hprinted : printed = pre ++ (Whole.topsText tops' ++ post)) :
    List.Forall₂ (Element.Spaced style page printed ignored) ((topNodesAt src n tops).flatMap TopNode.elements)
      ((topNodesAt src' pre.length tops').flatMap TopNode.elements) := by
  induction tops generalizing tops' n pre with
  | nil =>
      obtain rfl : tops' = [] := by simpa using h
      exact .nil
  | cons first rest ih =>
      obtain ⟨gap, top⟩ := first
      obtain ⟨_, _, htop, hrest, hcons⟩ := List.forall₂_cons_left_iff.1 h
      cases tops' with
      | nil => simp at hcons
      | cons first' rest' =>
          obtain ⟨gap', top'⟩ := first'
          rw [List.map_cons, List.cons.injEq] at hcons
          obtain ⟨rfl, rfl⟩ := hcons
          have hfirst : printed = (pre ++ gap') ++ (top'.text ++ (Whole.topsText rest' ++ post)) := by
            rw [hprinted]
            simp [Whole.topsText]
          have hbehind : printed = (pre ++ gap' ++ top'.text) ++ (Whole.topsText rest' ++ post) := by
            rw [hfirst]
            simp
          rw [topNodesAt] at hroot
          rw [topNodesAt, topNodesAt, List.flatMap_cons, List.flatMap_cons, ← List.length_append, ← List.length_append]
          refine List.rel_append ?_ (ih hrest (fun next hnext => htops next (by simp [hnext]))
            (fun node hnode => hroot node (by simp [hnode])) hbehind)
          cases htop with
          | misc => exact .nil
          | doctype => exact .nil
          | @root item item' hlaid =>
              refine (htops (gap, .root item) (by simp)).2.spaces item' _ _ _ hlaid hfirst fun offset _ _ => ?_
              rw [hroot (item.locate src (n + gap.length)) List.mem_cons_self, rangesAll_singleton]
              rfl

/-- The elements of a document are spaced in what it is printed as. -/
theorem Whole.Laid.spaced {style : Style} {page : Page} {w w' : Whole} (h : w.Laid style page w') (hw : w.WellFormed)
    (hw' : w'.WellFormed) :
    List.Forall₂ (Element.Spaced style page w'.text (IgnoreRange.covers (w.locate.ranges style.markers)))
      w.locate.elements w'.locate.elements := by
  have hroot : ∀ node, .root node ∈ topNodesAt (Source.ofText w.text) w.declarationText.length w.tops →
      IgnoreRange.covers (w.locate.ranges style.markers) = IgnoreRange.covers (node.ranges style.markers) := by
    intro node hnode
    have hmem : .root node ∈ w.locate.topNodes := by
      rw [topNodes_locate hw, Whole.nodes]
      exact List.mem_append_right _ hnode
    rw [Document.ranges, Document.elements_of_root hmem, Node.ranges]
  rw [elements_locate hw, elements_locate hw']
  exact spaced_topNodesAt h.tops (fun top htop => (hw.tops top htop).2) hroot (Whole.text.eq_1 w')

end Spelled

/-! ### Formatting -/

/-- The whitespace in an element is kept if the element stands in an ignore range, or if whitespace counts in it. -/
def Document.KeepsSpace (style : Style) (d : Document) (e : Element) : Prop :=
  d.ignores style.markers e = true ∨ e.SpaceCounts style

namespace Formatter

/-- With a valid profile and no embedders, every text that can be read is formatted, and the children of its
elements are spaced in the result. -/
theorem exists_spacedAll {profile : Profile} (hvalid : profile.Valid) {correlationId : Option String}
    {f : Formatter} (hmake : make profile correlationId [] = .ok f) {t : Text} {d : Document}
    (hread : read t = .ok d) :
    ∃ r page, f.format t = .ok r ∧ profile.page? = some page ∧
      ((∀ p ∈ d.prolog, p.attributes ≠ []) → ∃ d', read r.formatted = .ok d') ∧
      ∀ d', read r.formatted = .ok d' →
        List.Forall₂ (fun e e' : Element => Node.SpacedAll profile.style page r.formatted.normalize
          (d.KeepsSpace profile.style e) e.children e'.children) d.elements d'.elements := by
  obtain ⟨w, w', lineEnd, r, rfl, h⟩ := exists_formatted hvalid hmake hread
  obtain ⟨page, -, hpage, -⟩ := hvalid.exists_page
  obtain ⟨rfl, -, -⟩ := of_make hmake
  refine ⟨r, page, h.format, hpage, fun hprolog => ?_, fun d' hread' => ?_⟩
  · exact ⟨_, h.read_eq (h.reshaped.wellFormed_of_attributes h.wellFormed hprolog)⟩
  · have hw' : w'.WellFormed := by
      rw [read, h.normalize] at hread'
      exact h.reshaped.wellFormed_of_read h.wellFormed hread'
    obtain rfl : w'.locate = d' := Except.ok.inj ((h.read_eq hw').symm.trans hread')
    rw [h.normalize]
    exact (h.laid page hpage).spaced h.wellFormed hw'

end Formatter

end XmlTidy
