import Mathlib.Data.List.Infix
import XmlTidy.Proofs.Lossless

/-!
The images of comments. A comment is read to the first closing delimiter at or behind its own start, so the dashes
of the opening may already belong to the closing: `<!-->` and `<!--->` are comments. In all others the two
delimiters stand apart. This is so in content, at the top level and in an internal subset, whose comments are
stepped over on the way to its closing bracket.
-/

namespace XmlTidy

open Cursor Spelled

/-! ### Shapes -/

/-- A delimiter two of which cannot overlap ends a text that holds none. -/
theorem Text.endsAt_append {close lead : Text} (hborder : ∀ b ∈ close.tails, b <+: close → b = [] ∨ b = close)
    (h : ¬ close <:+: lead) : Text.EndsAt close (lead ++ close) := by
  refine ⟨⟨lead, rfl⟩, fun s u hu => ?_⟩
  rcases List.append_eq_append_iff.1 hu with ⟨a, -, ha⟩ | ⟨b, rfl, hb⟩
  · have hlength := congrArg List.length ha
    simp only [List.length_append] at hlength
    exact List.length_eq_zero_iff.1 (by omega)
  · -- the first delimiter ends inside the lead, or inside the second one
    rcases List.append_eq_append_iff.1 hb with ⟨a, rfl, -⟩ | ⟨c, hfirst, hsecond⟩
    · exact absurd ⟨s, a, by simp⟩ h
    · rcases hborder c ((List.mem_tails c close).2 ⟨b, hfirst.symm⟩) ⟨u, hsecond.symm⟩ with rfl | rfl
      · rw [List.append_nil] at hfirst
        exact absurd ⟨s, [], by rw [List.append_nil, hfirst]⟩ h
      · exact List.append_right_eq_self.1 hsecond.symm

namespace Comment

def closing : Text := ['-', '-', '>']

/-- An opening and a closing delimiter that do not overlap, and no closing one between them. -/
def Delimited (image : Text) : Prop :=
  ∃ body, image = commentStart ++ (body ++ closing) ∧ ¬ closing <:+: body

/-- The comments whose delimiters have both dashes or one dash in common. -/
def overlapping : List Text := [['<', '!', '-', '-', '>'], ['<', '!', '-', '-', '-', '>']]

/-- How a comment looks: its delimiters overlap, or they stand apart and no comment with overlapping ones is in
front of it. -/
def Shape (image : Text) : Prop :=
  image ∈ overlapping ∨ Delimited image ∧ ∀ short ∈ overlapping, ¬ short <+: image

theorem endsAt_append_closing {lead : Text} (h : ¬ closing <:+: lead) : Text.EndsAt closing (lead ++ closing) :=
  Text.endsAt_append (by decide) h

theorem endsAt_of_mem_overlapping {image : Text} (h : image ∈ overlapping) : Text.EndsAt closing image := by
  rcases List.mem_pair.1 h with rfl | rfl
  · exact @endsAt_append_closing ['<', '!'] (by decide)
  · exact @endsAt_append_closing ['<', '!', '-'] (by decide)

/-- A closing delimiter behind the opening lies in the body, or takes dashes from the opening. -/
theorem closing_in_body_or_front {body : Text} (h : closing <:+: commentStart ++ body) :
    closing <:+: body ∨ ∃ short ∈ overlapping, short <+: commentStart ++ body := by
  obtain ⟨s, u, hu⟩ := h
  rcases s with _ | ⟨_, _ | ⟨_, _ | ⟨_, _ | ⟨_, s⟩⟩⟩⟩ <;>
    simp only [commentStart, closing, List.cons_append, List.nil_append, List.append_assoc, List.cons.injEq] at hu
  · exact absurd hu.1 (by decide)
  · exact absurd hu.2.1 (by decide)
  · exact .inr ⟨_, List.mem_cons_self, u, by rw [← hu.2.2.2.2]; rfl⟩
  · exact .inr ⟨_, List.mem_cons_of_mem _ List.mem_cons_self, u, by rw [← hu.2.2.2.2]; rfl⟩
  · exact .inl ⟨s, u, by simpa [closing] using hu.2.2.2.2⟩

theorem Shape.image {image : Text} (h : Shape image) : LeafClass.Image .comment image := by
  rcases h with h | ⟨⟨body, rfl, hbody⟩, hshort⟩
  · refine ⟨?_, endsAt_of_mem_overlapping h⟩
    rcases List.mem_pair.1 h with rfl | rfl <;> rfl
  · refine ⟨Text.startsWith_iff.2 ⟨_, rfl⟩, ?_⟩
    rw [← List.append_assoc]
    refine endsAt_append_closing fun hholds => ?_
    rcases closing_in_body_or_front hholds with hholds | ⟨short, hmem, hstarts⟩
    · exact hbody hholds
    · refine hshort short hmem (hstarts.trans ?_)
      rw [← List.append_assoc]
      exact List.prefix_append ..

/-- A comment that starts with one whose delimiters overlap is that one. -/
theorem mem_overlapping_of_front {image short : Text} (h : Text.EndsAt closing image) (hshort : short ∈ overlapping)
    (hstarts : short <+: image) : image ∈ overlapping := by
  obtain ⟨s, hs⟩ := (endsAt_of_mem_overlapping hshort).suffix
  obtain ⟨u, rfl⟩ := hstarts
  obtain rfl : u = [] := h.first s u (by rw [hs, List.append_assoc])
  rwa [List.append_nil]

/-- An opening and a closing delimiter make up a comment, with or without dashes in common. -/
theorem mem_overlapping_or_delimited {image : Text} (h : LeafClass.Image .comment image) :
    image ∈ overlapping ∨ Delimited image := by
  obtain ⟨hstart, hends⟩ := h
  obtain ⟨rest, rfl⟩ := Text.startsWith_iff.1 hstart
  obtain ⟨s, hs⟩ := hends.suffix
  rcases List.append_eq_append_iff.1 hs with ⟨body, rfl, rfl⟩ | ⟨c, hopen, hclose⟩
  · refine .inr ⟨body, rfl, ?_⟩
    rintro ⟨u, v, rfl⟩
    have hnil := hends.first (commentStart ++ u) (v ++ ['-', '-', '>']) (by simp [closing])
    simp at hnil
  · -- what the delimiters have in common
    rcases c with _ | ⟨x, _ | ⟨y, _ | ⟨z, c⟩⟩⟩
    · obtain rfl : rest = closing := hclose.symm
      exact .inr ⟨[], rfl, by decide⟩
    · obtain ⟨-, rfl⟩ : '-' = x ∧ ['-', '>'] = rest := by simpa using hclose
      exact .inl (by decide)
    · obtain ⟨-, -, rfl⟩ : '-' = x ∧ '-' = y ∧ ['>'] = rest := by simpa using hclose
      exact .inl (by decide)
    · obtain ⟨-, -, rfl, -, -⟩ : '-' = x ∧ '-' = y ∧ '>' = z ∧ c = [] ∧ rest = [] := by simpa using hclose
      have hmem : '>' ∈ commentStart := by rw [hopen]; simp
      exact absurd hmem (by decide)

/-- What is read as a comment is told by its shape. -/
theorem image_iff {image : Text} : LeafClass.Image .comment image ↔ Shape image := by
  refine ⟨fun h => ?_, Shape.image⟩
  by_cases hshort : ∃ short ∈ overlapping, short <+: image
  · obtain ⟨short, hmem, hstarts⟩ := hshort
    exact .inl (mem_overlapping_of_front h.2 hmem hstarts)
  · rcases mem_overlapping_or_delimited h with hmem | hdelimited
    · exact .inl hmem
    · exact .inr ⟨hdelimited, fun short hmem hstarts => hshort ⟨short, hmem, hstarts⟩⟩

end Comment

/-! ### Comments of an internal subset -/

namespace Cursor

/-- The scan for the bracket that closes a subset, with the comments that it steps over. -/
def subsetScan (src : Source) (start : Nat) (c : Cursor) : Except Failure (List Token × Cursor) :=
  match _hc : c.rest with
  | [] => .error ⟨.unterminatedSubset, start⟩
  | ch :: t =>
      if Text.startsWith commentStart c.rest then
        match _h : c.comment src with
        | .error e => .error e
        | .ok (tok, d) =>
            match subsetScan src start d with
            | .error e => .error e
            | .ok (toks, e) => .ok (tok :: toks, e)
      else if Literal.isQuote ch then
        match _h : Text.through? [ch] t with
        | none => c.fail .unterminatedSubsetLiteral
        | some (image, rest) => subsetScan src start (c.past (ch :: image) rest)
      else if ch = ']' then .ok ([], c.past [ch] t)
      else subsetScan src start (c.past [ch] t)
termination_by c.rest.length
decreasing_by
  · exact length_token_lt (by simp) _h
  · simp only [past, _hc, Text.eq_append_of_through? _h, List.length_cons, List.length_append]
    omega
  · simp [past, _hc]

variable {src : Source} {start : Nat} {c d : Cursor}

/-- Noting the comments changes nothing about where a subset ends. -/
theorem subsetEnd_eq_map (src : Source) (start : Nat) (c : Cursor) :
    subsetEnd src start c = (subsetScan src start c).map Prod.snd := by
  fun_induction subsetScan src start c with
  | case1 c hc =>
      rw [subsetEnd]
      split <;> simp_all [Except.map]
  | case2 c ch t hc hstart e hcomment =>
      rw [subsetEnd]
      split
      · simp_all
      · rw [if_pos hstart]
        split <;> simp_all [Except.map]
  | case3 c ch t hc hstart tok d hcomment e hrest ih =>
      rw [subsetEnd_of_comment hstart hcomment, ih, hrest]
  | case4 c ch t hc hstart tok d hcomment toks e hrest ih =>
      rw [subsetEnd_of_comment hstart hcomment, ih, hrest]
      rfl
  | case5 c ch t hc hstart hq hnone =>
      rw [subsetEnd]
      split
      · simp_all
      · next ch' t' hc' =>
          obtain ⟨rfl, rfl⟩ := List.cons.inj (hc.symm.trans hc')
          rw [if_neg hstart, if_pos hq]
          split <;> simp_all [Except.map, fail]
  | case6 c ch t hc hstart hq image rest hthrough ih =>
      rw [subsetEnd_of_literal hc (by simpa using hstart) hq hthrough, ih]
  | case7 c t hstart hc hq =>
      rw [subsetEnd]
      split
      · simp_all
      · next ch' t' hc' =>
          obtain ⟨rfl, rfl⟩ := List.cons.inj (hc.symm.trans hc')
          rw [if_neg hstart, if_neg hq, if_pos rfl]
          rfl
  | case8 c ch t hc hstart hq hclose ih =>
      rw [subsetEnd_of_other hc (by simpa using hstart) (by simpa using hq) hclose, ih]

/-- Every comment that is stepped over was read as one. -/
theorem image_of_subsetScan {toks : List Token} (h : subsetScan src start c = .ok (toks, d)) :
    ∀ tok ∈ toks, LeafClass.Image .comment tok.image := by
  revert h
  fun_induction subsetScan src start c generalizing toks
  case case4 c ch t hc hstart tok c₁ hcomment toks' e hrest ih =>
    rintro ⟨⟩
    obtain ⟨hends, htook, -⟩ := of_token (by simp) hcomment
    rw [htook.rest] at hstart
    exact List.forall_mem_cons.2 ⟨⟨startsWith_token hends hstart (by simp) (by decide), hends⟩, ih hrest⟩
  case case6 ih => exact ih
  case case7 =>
    rintro ⟨⟩
    simp
  case case8 ih => exact ih
  all_goals simp [fail]

/-- A comment at the front of a subset is stepped over. -/
theorem mem_of_subsetScan {image rest : Text} (himage : LeafClass.Image .comment image) {n : Nat} {toks : List Token}
    (h : subsetScan src start ⟨n, image ++ rest⟩ = .ok (toks, d)) : image ∈ toks.map Token.image := by
  have hstart := Text.startsWith_append_of rest himage.1
  have hcomment := @comment_append src _ himage n rest
  revert h
  fun_cases subsetScan src start ⟨n, image ++ rest⟩ with
  | case4 ch t hc _ tok c₁ hcomment' toks' e hrest =>
      rw [hcomment] at hcomment'
      obtain ⟨rfl, rfl⟩ := Prod.mk.inj (Except.ok.inj hcomment')
      rintro ⟨⟩
      simp
  | case6 ch t hc hnot => exact absurd hstart hnot
  | case7 t hnot => exact absurd hstart hnot
  | case8 ch t hc hnot => exact absurd hstart hnot
  | _ => simp [fail]

end Cursor

/-! ### Documents -/

/-- Where a document may hold a comment. -/
inductive CommentPlace where
  | content
  | topLevel
  | subset
deriving DecidableEq, Repr

/-- The comments of an internal subset, which is kept as written. -/
def Doctype.comments (decl : Doctype) : List Text :=
  match decl.internalSubset with
  | none => []
  | some subset =>
      match Cursor.subsetScan (.ofText subset) 0 ⟨1, subset.drop 1⟩ with
      | .error _ => []
      | .ok (toks, _) => toks.map Token.image

/-- The comments of a document. -/
def Document.comments (d : Document) : CommentPlace → List Text
  | .content => d.elements.flatMap fun e => (e.children.filterMap Node.comment?).map Token.image
  | .topLevel => (d.misc.filter (·.kind = .comment)).map Misc.image
  | .subset => d.doctype.toList.flatMap Doctype.comments

theorem Node.eq_of_comment? (node : Node) {tok : Token} (h : node.comment? = some tok) : node = .leaf (.comment tok) := by
  cases node with
  | leaf l => cases l <;> cases h; rfl
  | element tag children => cases h

theorem Document.mem_comments_of_root {d : Document} {e : Element} (he : d.root = some e) {tok : Token}
    (htok : .leaf (.comment tok) ∈ e.children) : tok.image ∈ d.comments .content :=
  List.mem_flatMap.2 ⟨e, List.mem_of_mem_head? (head?_elements he),
    List.mem_map_of_mem (List.mem_filterMap.2 ⟨_, htok, rfl⟩)⟩

/-- A comment at the front of a subset whose bracket is found. -/
theorem Doctype.mem_comments {decl : Doctype} {image body : Text}
    (hsubset : decl.internalSubset = some ('[' :: (image ++ body))) (himage : LeafClass.Image .comment image)
    (hbody : SubsetBody body) : image ∈ decl.comments := by
  have hend := @subsetEnd_append (.ofText ('[' :: (image ++ body))) _ (.comment himage hbody) 0 1 []
  rw [List.append_nil, subsetEnd_eq_map] at hend
  simp only [Doctype.comments, hsubset, List.drop_succ_cons, List.drop_zero]
  cases hscan : subsetScan (.ofText ('[' :: (image ++ body))) 0 ⟨1, image ++ body⟩ with
  | error e => rw [hscan] at hend; cases hend
  | ok result => exact mem_of_subsetScan himage hscan

theorem Doctype.image_of_mem_comments {decl : Doctype} {image : Text} (h : image ∈ decl.comments) :
    LeafClass.Image .comment image := by
  rw [Doctype.comments] at h
  split at h
  · simp at h
  · split at h
    · simp at h
    · next toks d hscan =>
        obtain ⟨tok, htok, rfl⟩ := List.mem_map.1 h
        exact image_of_subsetScan hscan tok htok

namespace Spelled

/-- Comments among the children of an element that is spelled. -/
theorem image_of_mem_children {item : Item} (hitem : item.WellFormed) {src : Source} {n : Nat} {e : Element}
    (he : item.locate src n = e.toNode) {tok : Token} (htok : .leaf (.comment tok) ∈ e.children) :
    LeafClass.Image .comment tok.image := by
  obtain ⟨eTag, eChildren⟩ := e
  cases item with
  | leaf cls image => cases he
  | empty tag =>
      rw [Item.locate, Element.toNode, Node.element.injEq] at he
      obtain ⟨-, rfl⟩ := he
      cases htok
  | full tag children endTail =>
      rw [Item.WellFormed] at hitem
      rw [Item.locate, Element.toNode, Node.element.injEq] at he
      obtain ⟨-, rfl⟩ := he
      obtain ⟨before, child, after, rfl, hnode⟩ := exists_of_mem_locateAll htok
      have hchild := wellFormed_of_mem hitem.2.1 (by simp : child ∈ before ++ child :: after)
      cases child with
      | leaf cls image =>
          rw [Item.locate, Node.leaf.injEq] at hnode
          cases cls <;> cases hnode
          rwa [Item.WellFormed] at hchild
      | empty tag => rw [Item.locate] at hnode; cases hnode
      | full tag children endTail => rw [Item.locate] at hnode; cases hnode

/-- Every comment of the document that a spelling stands for was read as one. -/
theorem image_of_mem_comments {w : Whole} (hw : w.WellFormed) {place : CommentPlace} {image : Text}
    (h : image ∈ w.locate.comments place) : LeafClass.Image .comment image := by
  cases place with
  | content =>
      simp only [Document.comments, List.mem_flatMap, List.mem_map, List.mem_filterMap] at h
      obtain ⟨e, he, tok, ⟨node, hnode, htok⟩, rfl⟩ := h
      obtain rfl := node.eq_of_comment? htok
      obtain ⟨pre, item, post, hitem, -, hlocate⟩ := exists_item_of_mem_elements hw he
      exact image_of_mem_children hitem hlocate hnode
  | topLevel =>
      simp only [Document.comments, List.mem_map, List.mem_filter] at h
      obtain ⟨m, ⟨hm, hkind⟩, rfl⟩ := h
      obtain ⟨pre, top, post, htop, -, hnode⟩ := exists_top_of_mem hw
        (show .misc m ∈ w.locate.nodesByKind by simp [Document.nodesByKind, hm]) (by simp)
      cases top with
      | misc kind image =>
          cases hnode
          obtain rfl := of_decide_eq_true hkind
          exact htop
      | doctype decl => cases hnode
      | root item => cases hnode
  | subset =>
      simp only [Document.comments, List.mem_flatMap] at h
      obtain ⟨decl, -, h⟩ := h
      exact Doctype.image_of_mem_comments h

/-- A comment at one of the places of a document. -/
def commentAt (image : Text) : CommentPlace → Top
  | .content => .root (.full ⟨['a'], [], []⟩ [.leaf .comment image] [])
  | .topLevel => .misc .comment image
  | .subset => .doctype ⟨[' '], ['a'], none, [' '], some ('[' :: (image ++ [']'])), []⟩

theorem commentAt_wellFormed {image : Text} (h : LeafClass.Image .comment image) (place : CommentPlace) :
    (commentAt image place).WellFormed := by
  have hname : Name.IsName ['a'] := ⟨'a', [], rfl, by decide, by simp⟩
  have hblank : Blanks [' '] := by simp [Blanks, isBlank]
  cases place with
  | content =>
      refine ⟨trivial, ?_⟩
      simp only [Item.WellFormed, Item.WellFormedAll]
      exact ⟨⟨hname, by simp, blanks_nil⟩, ⟨h, by simp, trivial⟩, blanks_nil⟩
  | topLevel => exact h
  | subset =>
      refine ⟨hblank, by simp, hname, by simp, hblank, ?_, blanks_nil⟩
      rintro _ ⟨⟩
      exact ⟨_, rfl, .comment h .close⟩

/-- A document that is nothing but a comment at one of its places. -/
def commentDocument (image : Text) (place : CommentPlace) : Whole := ⟨none, [([], commentAt image place)], []⟩

theorem mem_comments_commentDocument {image : Text} (h : LeafClass.Image .comment image) (place : CommentPlace) :
    image ∈ (commentDocument image place).locate.comments place := by
  cases place with
  | content =>
      obtain ⟨e, he, tok, htok, rfl⟩ : ∃ e, (commentDocument image .content).locate.root = some e ∧
          ∃ tok, .leaf (.comment tok) ∈ e.children ∧ tok.image = image := by
        simp [commentDocument, commentAt, Whole.locate, Whole.draft, Whole.addTops, Top.addTo, Draft.toDocument,
          Item.locate, Item.locateAll, Node.element?, LeafClass.leaf]
      exact Document.mem_comments_of_root he htok
  | topLevel => simp [commentDocument, commentAt, Whole.locate, Whole.draft, Whole.addTops, Top.addTo, Draft.addMisc,
      Draft.toDocument, Document.comments]
  | subset => exact List.mem_flatMap.2 ⟨_, Option.mem_toList.2 rfl, Doctype.mem_comments rfl h .close⟩

end Spelled

namespace Document

/-- The comments that reading reports, wherever they stand, are those of the stated shape: the delimiters stand apart, with
no closing one between them, but for the two comments whose delimiters overlap. -/
theorem comment_images (place : CommentPlace) (image : Text) :
    (∃ t d, read t = .ok d ∧ image ∈ d.comments place) ↔ Comment.Shape image := by
  rw [← Comment.image_iff]
  constructor
  · rintro ⟨t, d, hread, hmem⟩
    obtain ⟨w, hw, rfl, rfl⟩ := exists_spelling hread
    exact image_of_mem_comments hw hmem
  · intro h
    have hw : (commentDocument image place).WellFormed :=
      ⟨by simp [commentDocument], by simpa [commentDocument] using ⟨blanks_nil, commentAt_wellFormed h place⟩,
        by simp [commentDocument], blanks_nil⟩
    exact ⟨_, _, read_text hw, mem_comments_commentDocument h place⟩

/-- A comment of five characters is accepted, and its delimiters do not stand apart. -/
theorem comment_images_bothDashes :
    ∃ d, read "<a><!--></a>".toList = .ok d ∧ "<!-->".toList ∈ d.comments .content ∧
      ¬ Comment.Delimited "<!-->".toList := by
  obtain ⟨d, hread, htest⟩ := @exists_ok_of_any _ _ (read "<a><!--></a>".toList)
    (fun d => d.root.any fun e : Element => e.children.any fun node =>
      node.comment?.any fun tok => tok.image == "<!-->".toList) (by decide +kernel)
  rw [Option.any_eq_true] at htest
  obtain ⟨e, he, htest⟩ := htest
  obtain ⟨node, hnode, htest⟩ := List.any_eq_true.1 htest
  rw [Option.any_eq_true] at htest
  obtain ⟨tok, htok, himage⟩ := htest
  rw [node.eq_of_comment? htok] at hnode
  refine ⟨d, hread, eq_of_beq himage ▸ mem_comments_of_root he hnode, ?_⟩
  rintro ⟨body, hbody, -⟩
  have hlength := congrArg List.length hbody
  simp [commentStart, Comment.closing] at hlength

end Document

end XmlTidy
