import XmlTidy.Proofs.LocatedFragments

/-!
Ignore ranges among children that stand in a text. The comments come in the order of the children, so
pairing the markers among them finds the ranges that the pieces of the children hold; and putting those
ranges in the place of the fragments inside them gives the pieces one behind the other.
-/

namespace XmlTidy

open Spelled

/-! ### Ranges that stand in a text -/

/-- The ranges among pieces one behind the other. -/
def rangesAt (src : Source) : Nat → List Piece → List IgnoreRange
  | _, [] => []
  | n, .range items :: rest =>
      rangeAt src n items :: rangesAt src (n + (Item.textAll items).length) rest
  | n, piece :: rest => rangesAt src (n + piece.text.length) rest

def commentsAt (src : Source) (n : Nat) (items : List Item) : List Token :=
  (Item.locateAll src n items).filterMap Node.comment?

section Ranges

variable {src : Source} {markers : Markers}

theorem commentsAt_cons (src : Source) (n : Nat) (item : Item) (rest : List Item) :
    (∃ image, item = .leaf .comment image ∧
      commentsAt src n (item :: rest) = ⟨image, src.span n (n + image.length)⟩ ::
        commentsAt src (n + item.text.length) rest) ∨
    (item.isComment = false ∧
      commentsAt src n (item :: rest) = commentsAt src (n + item.text.length) rest) := by
  cases item with
  | leaf cls image =>
      cases cls with
      | comment => exact .inl ⟨image, rfl, rfl⟩
      | _ => exact .inr ⟨rfl, rfl⟩
  | empty tag => exact .inr ⟨rfl, by rw [commentsAt, Item.locateAll, Item.locate]; rfl⟩
  | full tag children endTail =>
      exact .inr ⟨rfl, by rw [commentsAt, Item.locateAll, Item.locate]; rfl⟩

theorem not_marker (markers : Markers) {item : Item} (h : item.isComment = false) :
    item.isStart markers = false ∧ item.isStop markers = false := by
  cases item with
  | leaf cls image => cases cls <;> simp_all [Item.isComment, Item.isStart, Item.isStop]
  | _ => exact ⟨rfl, rfl⟩

/-- A start marker that no end marker follows starts no range. -/
theorem pair_pending {items : List Item} (h : Item.closes markers items = false) (tok : Token) (n : Nat) :
    (IgnoreRange.pair markers (some tok) (commentsAt src n items)).1 =
      (IgnoreRange.pair markers none (commentsAt src n items)).1 := by
  induction items generalizing n with
  | nil => rfl
  | cons item rest ih =>
      rw [Item.closes] at h
      obtain ⟨image, rfl, hcons⟩ | ⟨hcomment, hcons⟩ := commentsAt_cons src n item rest
      · rw [hcons, IgnoreRange.pair, IgnoreRange.pair]
        by_cases hstart : image = markers.start
        · simp only [hstart, if_true]
        · by_cases hstop : image = markers.stop
          · simp [Item.isStart, Item.isStop, hstop] at h
            simp_all
          · simp only [Item.isStart, Item.isStop, hstart, hstop, decide_false, Bool.and_false,
              Bool.false_eq_true, if_false] at h ⊢
            exact ih h _
      · simp only [not_marker markers hcomment, Bool.false_eq_true, if_false] at h
        rw [hcons]
        exact ih h _

/-- The comment that ends a range, among the items behind the start marker. -/
structure RangeEnd (src : Source) (markers : Markers) (start : Token) (n : Nat) (items : List Item)
    (stop : Token) : Prop where
  pair_eq : (IgnoreRange.pair markers (some start) (commentsAt src n items)).1 =
    IgnoreRange.between start stop ::
      (IgnoreRange.pair markers none
        (commentsAt src (n + (Item.textAll (Item.splitStop markers items).1).length)
          (Item.splitStop markers items).2)).1
  last : stop.span.last = (n + (Item.textAll (Item.splitStop markers items).1).length : Nat) - 1
  position : stop.span.stop = src.position (n + (Item.textAll (Item.splitStop markers items).1).length - 1)

theorem RangeEnd.cons {start stop : Token} {n : Nat} {item : Item} {rest : List Item}
    (hstop : item.isStop markers = false)
    (hpair : IgnoreRange.pair markers (some start) (commentsAt src n (item :: rest)) =
      IgnoreRange.pair markers (some start) (commentsAt src (n + item.text.length) rest))
    (h : RangeEnd src markers start (n + item.text.length) rest stop) :
    RangeEnd src markers start n (item :: rest) stop := by
  have hlength : n + (Item.textAll (Item.splitStop markers (item :: rest)).1).length =
      n + item.text.length + (Item.textAll (Item.splitStop markers rest).1).length := by
    simp [Item.splitStop, hstop, Item.textAll, Nat.add_assoc]
  have hbehind : (Item.splitStop markers (item :: rest)).2 = (Item.splitStop markers rest).2 := by
    simp [Item.splitStop, hstop]
  constructor
  · rw [hpair, hlength, hbehind, h.pair_eq]
  · rw [hlength, h.last]
  · rw [hlength, h.position]

/-- A start marker that an end marker follows starts a range. -/
theorem pair_closes (src : Source) {items : List Item} (hitems : Item.WellFormedAll items)
    (h : Item.closes markers items = true) (start : Token) (n : Nat) :
    ∃ stop, RangeEnd src markers start n items stop := by
  induction items generalizing n with
  | nil => simp [Item.closes] at h
  | cons item rest ih =>
      rw [Item.closes] at h
      have htail := ih (wellFormedAll_tail hitems)
      obtain ⟨image, rfl, hcons⟩ | ⟨hcomment, hcons⟩ := commentsAt_cons src n item rest
      · by_cases hstart : image = markers.start
        · simp [Item.isStart, hstart] at h
        · by_cases hstop : image = markers.stop
          · have hisStop : (Item.leaf .comment image).isStop markers = true := by
              simp [Item.isStop, hstop]
              simp_all
            have hne : image ≠ [] := text_ne_nil (wellFormed_of_mem hitems (List.mem_cons_self ..))
            refine ⟨⟨image, src.span n (n + image.length)⟩, ?_, ?_, ?_⟩
            · rw [hcons, IgnoreRange.pair, Item.splitStop, if_pos hisStop, if_neg hstart,
                if_pos hstop]
              simp [Item.textAll, Item.text]
            · rw [Item.splitStop, if_pos hisStop]
              simp [Source.span, Item.textAll, Item.text]
            · rw [Item.splitStop, if_pos hisStop, Source.span_stop src hne]
              simp [Item.textAll, Item.text]
          · have hnot : (Item.leaf .comment image).isStop markers = false := by
              simp [Item.isStop, hstop]
            simp only [Item.isStart, hstart, hnot, decide_false, Bool.false_eq_true, if_false] at h
            obtain ⟨stop, hend⟩ := htail h (n + (Item.leaf .comment image).text.length)
            exact ⟨stop, hend.cons hnot (by rw [hcons, IgnoreRange.pair, if_neg hstart, if_neg hstop])⟩
      · obtain ⟨hstart, hstop⟩ := not_marker markers hcomment
        simp only [hstart, hstop, Bool.false_eq_true, if_false] at h
        obtain ⟨stop, hend⟩ := htail h (n + item.text.length)
        exact ⟨stop, hend.cons hstop (by rw [hcons])⟩

/-- Items that meet are no comments. -/
theorem commentsAt_pair (src : Source) (n : Nat) {item next : Item} (h : item.meets next = true)
    (rest : List Item) : commentsAt src n (item :: next :: rest) =
      commentsAt src (n + item.text.length + next.text.length) rest := by
  obtain ⟨hblank, htext, -⟩ := meets_iff.1 h
  obtain ⟨image, rfl, -⟩ | ⟨-, h₁⟩ := commentsAt_cons src n item (next :: rest)
  · simp [Item.isBlankRun] at hblank
  · obtain ⟨image, rfl, -⟩ | ⟨-, h₂⟩ := commentsAt_cons src (n + item.text.length) next rest
    · simp [Item.isText] at htext
    · rw [h₁, h₂]

/-- Pairing the markers among the comments finds the ranges of the pieces. -/
theorem pair_commentsAt {items : List Item} (hitems : Item.WellFormedAll items) (n : Nat) :
    (IgnoreRange.pair markers none (commentsAt src n items)).1 =
      rangesAt src n (pieces markers true items) := by
  induction items using pieces_induct markers true generalizing n with
  | nil => simp [pieces, commentsAt, Item.locateAll, IgnoreRange.pair, rangesAt]
  | range item rest hrange ih =>
      rw [pieces_range hrange, rangesAt]
      simp only [Bool.true_and, Bool.and_eq_true] at hrange
      obtain ⟨image, rfl, hcons⟩ | ⟨hcomment, -⟩ := commentsAt_cons src n item rest
      · have hstart : image = markers.start := by simpa [Item.isStart] using hrange.1
        obtain ⟨stop, hend⟩ := pair_closes src (wellFormedAll_tail hitems)
          hrange.2 ⟨image, src.span n (n + image.length)⟩ (n + image.length)
        have hlength : (Item.textAll (.leaf .comment image :: (Item.splitStop markers rest).1)).length =
            image.length + (Item.textAll (Item.splitStop markers rest).1).length := by
          rw [Item.textAll, List.length_append]
          rfl
        have hafter : Item.WellFormedAll (Item.splitStop markers rest).2 := by
          have := wellFormedAll_tail hitems
          rw [← Item.splitStop_append markers rest] at this
          exact wellFormedAll_right this
        rw [hcons, IgnoreRange.pair, if_pos hstart, hlength, ← Nat.add_assoc]
        refine hend.pair_eq.trans (congrArg₂ List.cons ?_ (ih hafter _))
        have hne : Item.textAll (.leaf .comment image :: (Item.splitStop markers rest).1) ≠ [] := by
          rw [Item.textAll]
          simp [text_ne_nil (wellFormed_of_mem hitems (List.mem_cons_self ..))]
        rw [IgnoreRange.between, rangeAt, Source.span_stop src hne, hlength, ← Nat.add_assoc, hend.last,
          hend.position]
        rfl
      · rw [(not_marker markers hcomment).1] at hrange
        exact absurd hrange.1 Bool.false_ne_true
  | pair item next rest hrange hmeets ih =>
      have htail := wellFormedAll_tail (wellFormedAll_tail hitems)
      have hlength : (Piece.pair item next).text.length = item.text.length + next.text.length := by
        simp [Piece.text, Piece.items, Item.textAll]
      rw [pieces_pair hrange hmeets, rangesAt, hlength, ← Nat.add_assoc, commentsAt_pair src n hmeets]
      · exact ih htail _
      · simp
  | single item rest hrange hmeets ih =>
      have htail := wellFormedAll_tail hitems
      have hlength : (Piece.single item).text = item.text := by
        simp [Piece.text, Piece.items, Item.textAll]
      rw [pieces_single hrange hmeets, rangesAt, hlength, ← ih htail]
      · obtain ⟨image, rfl, hcons⟩ | ⟨-, hcons⟩ := commentsAt_cons src n item rest
        · rw [hcons, IgnoreRange.pair]
          by_cases hstart : image = markers.start
          · rw [if_pos hstart]
            refine pair_pending ?_ _ _
            simpa [Item.isStart, hstart] using hrange
          · rw [if_neg hstart, ite_self]
        · rw [hcons]
      · simp

/-! ### Splicing the ranges -/

/-- Pieces without ranges go on behind an item that meets nothing. -/
theorem pieces_append {block : List Item} (after : List Item)
    (h : ∀ last ∈ block.getLast?, last.isBlankRun = false) :
    pieces markers false (block ++ after) = pieces markers false block ++ pieces markers false after := by
  induction block using pieces_induct markers false with
  | nil => simp [pieces]
  | range item rest hrange => simp at hrange
  | pair item next rest hrange hmeets ih =>
      have hrest : ∀ last ∈ rest.getLast?, last.isBlankRun = false := by
        intro last hlast
        refine h last ?_
        cases rest with
        | nil => simp at hlast
        | cons first rest => simpa [List.getLast?_cons_cons] using hlast
      rw [pieces_pair hrange hmeets, List.cons_append, List.cons_append, pieces_pair (by simp) hmeets,
        ih hrest, List.cons_append]
  | single item rest hrange hmeets ih =>
      have hrest : ∀ last ∈ rest.getLast?, last.isBlankRun = false := by
        intro last hlast
        refine h last ?_
        cases rest with
        | nil => simp at hlast
        | cons first rest => simpa [List.getLast?_cons_cons] using hlast
      have hmeets' : ∀ next ∈ (rest ++ after).head?, item.meets next = false := by
        intro next hnext
        cases rest with
        | nil =>
            by_contra hpos
            rw [Bool.not_eq_false, meets_iff, h item (by simp)] at hpos
            exact Bool.false_ne_true hpos.1
        | cons first rest => exact hmeets next (by simpa using hnext)
      rw [pieces_single hrange hmeets, List.cons_append, pieces_single (by simp) hmeets', ih hrest,
        List.cons_append]

/-- What an end marker ends ends in it. -/
theorem getLast_splitStop {items : List Item} (h : Item.closes markers items = true) :
    ∃ inside stop, (Item.splitStop markers items).1 = inside ++ [stop] ∧ stop.isComment = true := by
  induction items with
  | nil => simp [Item.closes] at h
  | cons item rest ih =>
      rw [Item.closes] at h
      rw [Item.splitStop]
      split at h
      · cases h
      · split at h
        · rename_i hstop
          refine ⟨[], item, by simp [hstop], ?_⟩
          cases hcomment : item.isComment with
          | true => rfl
          | false => simp [(not_marker markers hcomment).2] at hstop
        · rename_i hstop
          obtain ⟨inside, stop, hsplit, hcomment⟩ := ih h
          refine ⟨item :: inside, stop, ?_, hcomment⟩
          rw [if_neg hstop, hsplit]
          rfl

theorem le_first_of_mem {ps : List Piece} {n : Nat} {r : IgnoreRange} (h : r ∈ rangesAt src n ps) :
    (n : Int) ≤ r.first := by
  induction ps generalizing n with
  | nil => simp [rangesAt] at h
  | cons piece ps ih =>
      cases piece with
      | range items =>
          rw [rangesAt] at h
          rcases List.mem_cons.1 h with rfl | h
          · exact le_refl _
          · have := ih h
            omega
      | _ =>
          have := ih h
          omega

theorem pairwise_rangesAt {ps : List Piece} (hps : ∀ piece ∈ ps, piece.text ≠ []) (n : Nat) :
    (rangesAt src n ps).Pairwise fun r s => r.first < s.first := by
  induction ps generalizing n with
  | nil => simp [rangesAt]
  | cons piece ps ih =>
      have hih := fun m => ih (fun p hp => hps p (by simp [hp])) m
      have hpos := List.length_pos_iff.2 (hps piece (by simp))
      cases piece with
      | range items =>
          rw [rangesAt, List.pairwise_cons]
          refine ⟨fun r hr => ?_, hih _⟩
          have hle := le_first_of_mem hr
          have hfirst : (rangeAt src n items).first = n := rfl
          have hlength : 0 < (Item.textAll items).length := hpos
          rw [hfirst]
          push_cast at hle
          omega
      | _ => exact hih _

theorem isBlank_fragment (src : Source) (source : Text) (layout : Item → Doc) (n : Nat)
    (piece : Piece) : (piece.fragment src source layout n).isBlank = false := by
  cases piece with
  | range items => rfl
  | pair blanks text => rfl
  | single item =>
      cases item with
      | leaf cls image => cases cls <;> rfl
      | empty tag => rw [Piece.fragment, Item.fragment, Item.locate]; rfl
      | full tag children endTail => rw [Piece.fragment, Item.fragment, Item.locate]; rfl

/-- A fragment in front of all ranges is left in place. -/
theorem kept_cons {ranges : List IgnoreRange} {f : Fragment} (fragments : List Fragment)
    (hblank : f.isBlank = false) (h : ∀ r ∈ ranges, f.offset < r.first) :
    IgnoreRange.kept ranges (f :: fragments) = f :: IgnoreRange.kept ranges fragments := by
  rw [IgnoreRange.kept, List.filter_cons_of_pos]
  · rfl
  · simp only [hblank, Bool.not_false, Bool.true_and, Bool.not_eq_true', List.any_eq_false,
      IgnoreRange.contains, Bool.and_eq_true, decide_eq_true_eq, not_and]
    intro r hr hle
    exact absurd hle (not_le.2 (h r hr))

/-- Fragments behind the first range are kept or not by the others. -/
theorem kept_behind {r : IgnoreRange} {ranges : List IgnoreRange} {fragments : List Fragment}
    (h : ∀ f ∈ fragments, r.last < f.offset) :
    IgnoreRange.kept (r :: ranges) fragments = IgnoreRange.kept ranges fragments := by
  refine List.filter_congr fun f hf => ?_
  have hout : r.contains f.offset = false := by
    simp only [IgnoreRange.contains, Bool.and_eq_false_iff, decide_eq_false_iff_not]
    exact .inr (not_le.2 (h f hf))
  rw [List.any_cons, hout, Bool.false_or]

/-- Fragments inside the first range are dropped. -/
theorem kept_inside {r : IgnoreRange} {ranges : List IgnoreRange} {fragments : List Fragment}
    (h : ∀ f ∈ fragments, r.first ≤ f.offset ∧ f.offset ≤ r.last) :
    IgnoreRange.kept (r :: ranges) fragments = [] := by
  rw [IgnoreRange.kept, List.filter_eq_nil_iff]
  intro f hf
  have hin : r.contains f.offset = true := by
    simp [IgnoreRange.contains, h f hf]
  simp [hin]

theorem fragmentsAt_append (src : Source) (source : Text) (layout : Item → Doc) (n : Nat)
    (ps ps' : List Piece) :
    Piece.fragmentsAt src source layout n (ps ++ ps') =
      Piece.fragmentsAt src source layout n ps ++
        Piece.fragmentsAt src source layout (n + (ps.flatMap Piece.text).length) ps' := by
  induction ps generalizing n with
  | nil => rfl
  | cons piece ps ih =>
      rw [List.cons_append, Piece.fragmentsAt, Piece.fragmentsAt, ih, List.flatMap_cons,
        List.length_append, Nat.add_assoc, List.cons_append]

/-- A piece stands in front of the ranges behind it. -/
theorem offset_lt_first {source : Text} {layout : Item → Doc} {n : Nat} {piece : Piece} {ps : List Piece}
    (hne : piece.text ≠ []) {r : IgnoreRange} (hr : r ∈ rangesAt src (n + piece.text.length) ps) :
    (piece.fragment src source layout n).offset < r.first := by
  have hle := le_first_of_mem hr
  have hpos := List.length_pos_iff.2 hne
  rw [Piece.offset_fragment]
  push_cast at hle
  omega

/-- A range ends in a comment, so no piece reaches over its end. -/
theorem pieces_block {item : Item} {rest : List Item} (h : Item.closes markers rest = true) :
    pieces markers false (item :: rest) =
      pieces markers false (item :: (Item.splitStop markers rest).1) ++
        pieces markers false (Item.splitStop markers rest).2 := by
  obtain ⟨inside, stop, hinside, hcomment⟩ := getLast_splitStop h
  rw [← pieces_append, List.cons_append, Item.splitStop_append markers rest]
  intro last hlast
  rw [hinside, ← List.cons_append, List.getLast?_concat] at hlast
  obtain rfl : stop = last := by simpa using hlast
  cases stop with
  | leaf cls image => cases cls <;> first | rfl | simp [Item.isComment] at hcomment
  | _ => simp [Item.isComment] at hcomment

/-- A range takes the place of the pieces inside it and leaves those behind it. -/
theorem kept_block {source : Text} {layout : Item → Doc} {block : List Item} (hblock : Item.WellFormedAll block)
    (n : Nat) (ranges : List IgnoreRange) (ps : List Piece) :
    IgnoreRange.kept (rangeAt src n block :: ranges)
        (Piece.fragmentsAt src source layout n (pieces markers false block ++ ps)) =
      IgnoreRange.kept ranges (Piece.fragmentsAt src source layout (n + (Item.textAll block).length) ps) := by
  have hlength : ((pieces markers false block).flatMap Piece.text).length = (Item.textAll block).length := by
    rw [flatMap_text, flatMap_pieces]
  have hlast : (rangeAt src n block).last = ((n + (Item.textAll block).length : Nat) : Int) - 1 := rfl
  rw [fragmentsAt_append, hlength, IgnoreRange.kept, List.filter_append, ← IgnoreRange.kept, ← IgnoreRange.kept,
    kept_inside, kept_behind, List.nil_append]
  · intro f hf
    have := le_offset_of_mem hf
    omega
  · intro f hf
    have hlt := offset_lt_of_mem (fun _ hp => piece_text_ne_nil hblock hp) hf
    rw [hlength] at hlt
    refine ⟨le_offset_of_mem hf, ?_⟩
    push_cast at *
    omega

/-- The pieces with ranges are the ranges and the pieces outside of them. -/
theorem perm_kept {source : Text} {layout : Item → Doc} {items : List Item}
    (hitems : Item.WellFormedAll items) (n : Nat) :
    (Piece.fragmentsAt src source layout n (pieces markers true items)).Perm
      (IgnoreRange.kept (rangesAt src n (pieces markers true items))
          (Piece.fragmentsAt src source layout n (pieces markers false items)) ++
        (rangesAt src n (pieces markers true items)).map (IgnoreRange.fragment source)) := by
  induction items using pieces_induct markers true generalizing n with
  | nil => simp [pieces, Piece.fragmentsAt, rangesAt, IgnoreRange.kept]
  | range item rest hrange ih =>
      have hblock : Item.WellFormedAll (item :: (Item.splitStop markers rest).1) ∧
          Item.WellFormedAll (Item.splitStop markers rest).2 := by
        rw [← Item.splitStop_append markers rest, ← List.cons_append] at hitems
        exact ⟨wellFormedAll_left hitems, wellFormedAll_right hitems⟩
      have hcloses : Item.closes markers rest = true := by
        simp only [Bool.true_and, Bool.and_eq_true] at hrange
        exact hrange.2
      rw [pieces_range hrange, pieces_block hcloses, Piece.fragmentsAt, rangesAt, kept_block hblock.1,
        List.map_cons]
      exact ((ih hblock.2 _).cons _).trans List.perm_middle.symm
  | pair item next rest hrange hmeets ih =>
      have hne : (Piece.pair item next).text ≠ [] := piece_text_ne_nil hitems (by
        rw [pieces_pair hrange hmeets]
        exact List.mem_cons_self ..)
      rw [pieces_pair hrange hmeets, pieces_pair (by simp) hmeets, Piece.fragmentsAt, Piece.fragmentsAt,
        rangesAt, kept_cons _ (isBlank_fragment ..) fun r hr => offset_lt_first hne hr, List.cons_append]
      · exact (ih (wellFormedAll_tail (wellFormedAll_tail hitems)) _).cons _
      · simp
  | single item rest hrange hmeets ih =>
      have hne : (Piece.single item).text ≠ [] := piece_text_ne_nil hitems (by
        rw [pieces_single hrange hmeets]
        exact List.mem_cons_self ..)
      rw [pieces_single hrange hmeets, pieces_single (by simp) hmeets, Piece.fragmentsAt,
        Piece.fragmentsAt, rangesAt, kept_cons _ (isBlank_fragment ..) fun r hr => offset_lt_first hne hr,
        List.cons_append]
      · exact (ih (wellFormedAll_tail hitems) _).cons _
      · simp

/-- Without a range there is nothing to splice. -/
theorem pieces_eq_of_rangesAt {items : List Item} {n : Nat}
    (h : rangesAt src n (pieces markers true items) = []) :
    pieces markers true items = pieces markers false items := by
  induction items using pieces_induct markers true generalizing n with
  | nil => simp [pieces]
  | range item rest hrange ih => simp [pieces_range hrange, rangesAt] at h
  | pair item next rest hrange hmeets ih =>
      rw [pieces_pair hrange hmeets, rangesAt] at h
      · rw [pieces_pair hrange hmeets, pieces_pair (by simp) hmeets, ih h]
      · simp
  | single item rest hrange hmeets ih =>
      rw [pieces_single hrange hmeets, rangesAt] at h
      · rw [pieces_single hrange hmeets, pieces_single (by simp) hmeets, ih h]
      · simp

/-- Splicing the ranges into the pieces without ranges gives the pieces with them. -/
theorem splice_pieces {source : Text} {layout : Item → Doc} {items : List Item}
    (hitems : Item.WellFormedAll items) (n : Nat) :
    IgnoreRange.splice source (rangesAt src n (pieces markers true items))
        (Piece.fragmentsAt src source layout n (pieces markers false items)) =
      Piece.fragmentsAt src source layout n (pieces markers true items) := by
  by_cases hranges : rangesAt src n (pieces markers true items) = []
  · rw [hranges, pieces_eq_of_rangesAt hranges]
    rfl
  · have hne : ∀ {ranged}, ∀ piece ∈ pieces markers ranged items, piece.text ≠ [] :=
      fun _ hp => piece_text_ne_nil hitems hp
    exact IgnoreRange.splice_eq hranges (inOrder_fragmentsAt hne n) (pairwise_rangesAt hne n)
      (inOrder_fragmentsAt hne n) (perm_kept hitems n)

end Ranges

/-! ### The fragments of content -/

theorem pairwise_commentsAt {src : Source} {items : List Item} (hitems : Item.WellFormedAll items) (n : Nat) :
    (commentsAt src n items).Pairwise (fun a b => a.span.first < b.span.first) ∧
      ∀ token ∈ commentsAt src n items, n ≤ token.span.first := by
  induction items generalizing n with
  | nil => simp [commentsAt, Item.locateAll]
  | cons item rest ih =>
      have hpos := List.length_pos_iff.2
        (text_ne_nil (wellFormed_of_mem hitems (List.mem_cons_self ..)))
      obtain ⟨horder, hle⟩ := ih (wellFormedAll_tail hitems) (n + item.text.length)
      have hlt : ∀ token ∈ commentsAt src (n + item.text.length) rest, n < token.span.first := by
        intro token htoken
        have := hle token htoken
        omega
      obtain ⟨image, rfl, hcons⟩ | ⟨-, hcons⟩ := commentsAt_cons src n item rest
      · rw [hcons, List.pairwise_cons]
        refine ⟨⟨hlt, horder⟩, fun token htoken => ?_⟩
        rcases List.mem_cons.1 htoken with rfl | htoken
        · exact le_refl _
        · exact le_of_lt (hlt token htoken)
      · rw [hcons]
        exact ⟨horder, fun token htoken => le_of_lt (hlt token htoken)⟩

theorem sortTokens_commentsAt {src : Source} {items : List Item} (hitems : Item.WellFormedAll items)
    (n : Nat) : IgnoreRange.sortTokens (commentsAt src n items) = commentsAt src n items :=
  sortedBy_eq_of_perm (.refl _) (pairwise_commentsAt hitems n).1

/-- Content that is kept as written is the pieces of its items. -/
theorem fragments_locateAll {job : Job} {src : Source} {layout : Item → Doc} {items : List Item}
    (hitems : Item.WellFormedAll items) {pre post : Text}
    (hsrc : src = Source.ofText (pre ++ (Item.textAll items ++ post)))
    (hlayout : LaidOut job src layout pre.length items) (span : Span) {preserve : Bool}
    (hpreserve : (preserve || (job.style.sensitivity = .preserve &&
      (Content.mk (Item.locateAll src pre.length items) span).hasText)) = true) :
    job.fragments preserve ⟨Item.locateAll src pre.length items, span⟩
        (Node.elementFragments job (Item.locateAll src pre.length items)) =
      Piece.fragmentsAt src job.source layout pre.length (pieces job.style.markers true items) := by
  have hranges : (job.ranges ⟨Item.locateAll src pre.length items, span⟩).1 =
      rangesAt src pre.length (pieces job.style.markers true items) := by
    rw [Job.ranges, IgnoreRange.scan]
    exact (congrArg (fun l => (IgnoreRange.pair _ none l).1) (sortTokens_commentsAt hitems _)).trans
      (pair_commentsAt hitems _)
  have hfragments := fragments_eq job preserve ⟨Item.locateAll src pre.length items, span⟩
  rw [hpreserve] at hfragments
  rw [Job.fragments, hranges, hfragments, sortedBy_eq_of_perm
    (kindFragments_perm job.source job.style.markers hitems hsrc hlayout).symm
    (inOrder_fragmentsAt (fun _ hp => piece_text_ne_nil hitems hp) _), splice_pieces hitems]

end XmlTidy
