import XmlTidy.Proofs.RangeFidelity

/-!
Elements in ignore ranges. An element is ignored if its first character stands in a range of some element of the
document. That can only be an element around it: the ranges of an item stand inside of its text, and
those of its children each inside of the text of the child.
-/

namespace XmlTidy

/-- Whether an offset stands in one of some ranges. -/
def IgnoreRange.covers (rs : List IgnoreRange) (offset : Nat) : Bool := rs.any (·.contains offset)

/-- The ranges of the elements of a subtree. -/
def Node.ranges (markers : Markers) (node : Node) : List IgnoreRange := node.elements.flatMap (Element.ranges markers)

/-- The ranges of all elements of a document. -/
def Document.ranges (markers : Markers) (d : Document) : List IgnoreRange :=
  d.elements.flatMap (Element.ranges markers)

/-- Whether an element stands in an ignore range. -/
def Document.ignores (markers : Markers) (d : Document) (e : Element) : Bool :=
  IgnoreRange.covers (d.ranges markers) e.tag.span.first

namespace IgnoreRange

theorem covers_append (rs ss : List IgnoreRange) (offset : Nat) :
    covers (rs ++ ss) offset = (covers rs offset || covers ss offset) := List.any_append

/-- Ranges that start behind a number of characters and end before another one. -/
def Within (n m : Nat) (rs : List IgnoreRange) : Prop := ∀ r ∈ rs, (n : Int) ≤ r.first ∧ r.last < m

section Within

variable {n m : Nat} {rs ss : List IgnoreRange}

theorem within_append : Within n m (rs ++ ss) ↔ Within n m rs ∧ Within n m ss := List.forall_mem_append

theorem Within.mono {n' m' : Nat} (h : Within n m rs) (hn : n' ≤ n) (hm : m ≤ m') : Within n' m' rs := by
  intro r hr
  have := h r hr
  omega

theorem Within.covers_eq_false (h : Within n m rs) {offset : Nat} (ho : offset < n ∨ m ≤ offset) :
    covers rs offset = false := by
  rw [covers, List.any_eq_false]
  intro r hr
  have := h r hr
  simp only [contains, Bool.and_eq_true, decide_eq_true_eq]
  omega

end Within

end IgnoreRange

open IgnoreRange

namespace Spelled

theorem length_full (tag : Open) (children : List Item) (endTail : Text) :
    (Item.full tag children endTail).text.length =
      tag.text.length + 1 + (Item.textAll children).length + (Item.endTag tag.name endTail).length := by
  simp [Item.text]
  omega

theorem textAll_singleton (item : Item) : Item.textAll [item] = item.text := by
  rw [Item.textAll]
  exact List.append_nil _

theorem locateAll_append (src : Source) (n : Nat) (items items' : List Item) :
    Item.locateAll src n (items ++ items') =
      Item.locateAll src n items ++ Item.locateAll src (n + (Item.textAll items).length) items' := by
  induction items generalizing n with
  | nil => rfl
  | cons item rest ih =>
      rw [List.cons_append, Item.locateAll, Item.locateAll, ih, Item.textAll, List.length_append, List.cons_append,
        Nat.add_assoc]

section Ranges

variable {markers : Markers} {src : Source}

theorem within_rangeAt (n : Nat) (items : List Item) :
    Within n (n + (Item.textAll items).length) [rangeAt src n items] := by
  intro r hr
  obtain rfl := List.mem_singleton.1 hr
  have hfirst : (rangeAt src n items).first = n := rfl
  have hlast : (rangeAt src n items).last = ((n + (Item.textAll items).length : Nat) : Int) - 1 := rfl
  omega

/-- Ranges among pieces stand inside of the text of the pieces. -/
theorem within_rangesAt (n : Nat) (ps : List Piece) :
    Within n (n + (Item.textAll (ps.flatMap Piece.items)).length) (rangesAt src n ps) := by
  induction ps generalizing n with
  | nil => simp [rangesAt, Within]
  | cons piece ps ih =>
      have hlength : n + (Item.textAll ((piece :: ps).flatMap Piece.items)).length =
          n + piece.text.length + (Item.textAll (ps.flatMap Piece.items)).length := by
        rw [List.flatMap_cons, textAll_append, List.length_append, Piece.text, Nat.add_assoc]
      have hrest := (ih (n + piece.text.length)).mono (Nat.le_add_right n _) (Nat.le_refl _)
      rw [hlength]
      cases piece with
      | range items =>
          exact within_append.2 ⟨(within_rangeAt n items).mono (Nat.le_refl _) (Nat.le_add_right _ _), hrest⟩
      | pair blanks text => exact hrest
      | single item => exact hrest

/-- Behind a piece, only the ranges among the later pieces count. -/
theorem covers_rangesAt_cons {piece : Piece} {n offset : Nat} (h : n + piece.text.length ≤ offset) (ps : List Piece) :
    covers (rangesAt src n (piece :: ps)) offset = covers (rangesAt src (n + piece.text.length) ps) offset := by
  cases piece with
  | range items =>
      have hfirst := (@within_rangeAt src n items).covers_eq_false (.inr h)
      have hcons := covers_append [rangeAt src n items] (rangesAt src (n + (Item.textAll items).length) ps) offset
      rw [hfirst, Bool.false_or] at hcons
      exact hcons
  | pair blanks text => rfl
  | single item => rfl

theorem covers_rangesAt_range {items : List Item} {n offset : Nat} (hn : n ≤ offset)
    (hm : offset < n + (Item.textAll items).length) (ps : List Piece) :
    covers (rangesAt src n (.range items :: ps)) offset = true := by
  have hfirst : (rangeAt src n items).first = n := rfl
  have hlast : (rangeAt src n items).last = ((n + (Item.textAll items).length : Nat) : Int) - 1 := rfl
  have hcontains : (rangeAt src n items).contains offset = true := by
    rw [contains, hfirst, hlast, Bool.and_eq_true, decide_eq_true_eq, decide_eq_true_eq]
    omega
  rw [rangesAt, covers, List.any_cons, hcontains, Bool.true_or]

/-- The ranges of the elements among items and below them. -/
def rangesAll (markers : Markers) (src : Source) (n : Nat) (items : List Item) : List IgnoreRange :=
  (Item.locateAll src n items).flatMap (Node.ranges markers)

theorem rangesAll_cons (n : Nat) (item : Item) (rest : List Item) :
    rangesAll markers src n (item :: rest) =
      (item.locate src n).ranges markers ++ rangesAll markers src (n + item.text.length) rest := by
  rw [rangesAll, Item.locateAll, List.flatMap_cons, ← rangesAll]

theorem rangesAll_append (n : Nat) (items items' : List Item) :
    rangesAll markers src n (items ++ items') =
      rangesAll markers src n items ++ rangesAll markers src (n + (Item.textAll items).length) items' := by
  rw [rangesAll, locateAll_append, List.flatMap_append, ← rangesAll, ← rangesAll]

theorem rangesAll_singleton (n : Nat) (item : Item) :
    rangesAll markers src n [item] = (item.locate src n).ranges markers := by
  rw [rangesAll_cons]
  exact List.append_nil _

theorem ranges_full {tag : Open} {children : List Item} (h : Item.WellFormedAll children) (endTail : Text) (n : Nat) :
    ((Item.full tag children endTail).locate src n).ranges markers =
      rangesAt src (n + (tag.text.length + 1)) (pieces markers true children) ++
        rangesAll markers src (n + (tag.text.length + 1)) children := by
  rw [Item.locate, Node.ranges, elements_locateAll, List.flatMap_cons, ranges_element _ h, List.flatMap_assoc]
  rfl

theorem ranges_empty (tag : Open) (n : Nat) : ((Item.empty tag).locate src n).ranges markers = [] := by
  rw [Item.locate, Node.ranges, elements_empty, List.flatMap_singleton]
  simp [Element.ranges, Element.comments, scan, sortTokens, sortedBy, pair]

theorem within_rangesAll {items : List Item} (n : Nat)
    (h : ∀ item ∈ items, ∀ n, Within n (n + item.text.length) ((item.locate src n).ranges markers)) :
    Within n (n + (Item.textAll items).length) (rangesAll markers src n items) := by
  induction items generalizing n with
  | nil => simp [rangesAll, Item.locateAll, Within]
  | cons item rest ih =>
      have hrest := ih (n + item.text.length) fun item' hitem => h item' (by simp [hitem])
      rw [rangesAll_cons, Item.textAll, List.length_append, ← Nat.add_assoc]
      exact within_append.2 ⟨(h item (by simp) n).mono (Nat.le_refl _) (Nat.le_add_right _ _),
        hrest.mono (Nat.le_add_right _ _) (Nat.le_refl _)⟩

/-- The ranges of the elements of an item stand inside of its text. -/
theorem within_ranges {item : Item} (h : item.WellFormed) (n : Nat) :
    Within n (n + item.text.length) ((item.locate src n).ranges markers) := by
  induction item using Item.induct generalizing n with
  | leaf cls image => simp [Node.ranges, elements_locate_leaf, Within]
  | empty tag => simp [ranges_empty, Within]
  | full tag children endTail ih =>
      rw [Item.WellFormed] at h
      have hown := @within_rangesAt src (n + (tag.text.length + 1)) (pieces markers true children)
      have hbelow := @within_rangesAll markers src children (n + (tag.text.length + 1)) fun child hchild =>
        ih child hchild (wellFormed_of_mem h.2.1 hchild)
      rw [flatMap_pieces] at hown
      rw [ranges_full h.2.1, length_full]
      exact within_append.2 ⟨hown.mono (by omega) (by omega), hbelow.mono (by omega) (by omega)⟩

end Ranges

/-! ### What decides whether an offset is ignored -/

/-- Where items stand, an offset is ignored if it stands in one of some ranges around the items, or in a range of an
element among them or below them. -/
def Governs (markers : Markers) (src : Source) (ignored : Nat → Bool) (own : List IgnoreRange) (n : Nat)
    (items : List Item) : Prop :=
  ∀ offset, n ≤ offset → offset < n + (Item.textAll items).length →
    ignored offset = (covers own offset || covers (rangesAll markers src n items) offset)

section Governs

variable {markers : Markers} {src : Source} {ignored : Nat → Bool} {own : List IgnoreRange} {n : Nat}

/-- The ranges of items say nothing about what stands before or behind them. -/
theorem Governs.split {items items' : List Item} (h : Governs markers src ignored own n (items ++ items'))
    (hitems : ∀ item ∈ items, item.WellFormed) (hitems' : ∀ item ∈ items', item.WellFormed) :
    Governs markers src ignored own n items ∧
      Governs markers src ignored own (n + (Item.textAll items).length) items' := by
  have hwithin := @within_rangesAll markers src items n fun item hitem => within_ranges (hitems item hitem)
  have hwithin' := @within_rangesAll markers src items' (n + (Item.textAll items).length) fun item hitem =>
    within_ranges (hitems' item hitem)
  constructor
  · intro offset hn hm
    rw [h offset hn (by rw [textAll_append, List.length_append]; omega), rangesAll_append, covers_append,
      hwithin'.covers_eq_false (.inl hm), Bool.or_false]
  · intro offset hn hm
    rw [h offset (by omega) (by rw [textAll_append, List.length_append]; omega), rangesAll_append, covers_append,
      hwithin.covers_eq_false (.inr hn), Bool.false_or]

/-- Ranges around items that do not reach them say nothing about them. -/
theorem Governs.of_apart {items : List Item} (h : Governs markers src ignored own n items)
    (hown : ∀ offset, n ≤ offset → offset < n + (Item.textAll items).length → covers own offset = false) :
    Governs markers src ignored [] n items := by
  intro offset hn hm
  rw [h offset hn hm, hown offset hn hm]
  rfl

/-- Inside of an element that stands in no range, its own ranges decide. -/
theorem Governs.children {tag : Open} {children : List Item} {endTail : Text}
    (h : Governs markers src ignored [] n [.full tag children endTail]) (hwf : Item.WellFormedAll children) :
    Governs markers src ignored (rangesAt src (n + (tag.text.length + 1)) (pieces markers true children))
      (n + (tag.text.length + 1)) children := by
  intro offset hn hm
  have hlength := length_full tag children endTail
  rw [h offset (by omega) (by rw [textAll_singleton]; omega), rangesAll_singleton, ranges_full hwf, covers_append]
  rfl

/-- An element that stands in no range around it is not ignored: its own ranges stand behind its tag. -/
theorem Governs.not_ignored {tag : Open} {children : List Item} {endTail : Text}
    (h : Governs markers src ignored [] n [.full tag children endTail]) (hwf : Item.WellFormedAll children) :
    ignored n = false := by
  have hown := @within_rangesAt src (n + (tag.text.length + 1)) (pieces markers true children)
  have hbelow := @within_rangesAll markers src children (n + (tag.text.length + 1)) fun child hchild =>
    within_ranges (wellFormed_of_mem hwf hchild)
  have hlength := length_full tag children endTail
  rw [h n (Nat.le_refl n) (by rw [textAll_singleton]; omega), rangesAll_singleton, ranges_full hwf, covers_append,
    hown.covers_eq_false (.inl (by omega)), hbelow.covers_eq_false (.inl (by omega))]
  rfl

end Governs

/-- The ranges of an element and of those in it stand behind its tag. -/
theorem not_covers_first {markers : Markers} {src : Source} {item : Item} (h : item.WellFormed) (n : Nat) :
    covers ((item.locate src n).ranges markers) n = false := by
  cases item with
  | leaf cls image => simp [Node.ranges, elements_locate_leaf, covers]
  | empty tag => simp [ranges_empty, covers]
  | full tag children endTail =>
      rw [Item.WellFormed] at h
      refine @Governs.not_ignored markers src (covers _) n tag children endTail (fun offset _ _ => ?_) h.2.1
      rw [rangesAll_singleton]
      rfl

end Spelled

open Spelled

/-- The root of a document stands in no ignore range. -/
theorem Document.ignores_root {t : Text} {d : Document} (hread : Document.read t = .ok d) {e : Element}
    (he : d.root = some e) (markers : Markers) : d.ignores markers e = false := by
  obtain ⟨w, hw, -, rfl⟩ := exists_spelling hread
  have hroot := root_mem_topNodes he
  rw [topNodes_locate hw, Whole.nodes, List.mem_append] at hroot
  rcases hroot with hroot | hroot
  · cases hd : w.declaration <;> simp [hd] at hroot
  · obtain ⟨item, m, hmem, hnode⟩ := exists_root_of_mem hroot
    obtain ⟨top, htop, hitem⟩ := List.mem_map.1 hmem
    have hwf : Top.WellFormed (.root item) := hitem ▸ (hw.tops top htop).2
    have hfirst : e.tag.span.first = m := by
      rw [← first_locate (Source.ofText w.text) m item, ← hnode]
      rfl
    have hranges : w.locate.ranges markers = e.toNode.ranges markers := by
      rw [Document.ranges, Document.elements_of_root (root_mem_topNodes he), Node.ranges]
    rw [ignores, hranges, hfirst, hnode]
    exact not_covers_first hwf.2 m

end XmlTidy
