import Mathlib.Data.Multiset.AddSub
import XmlTidy.Proofs.Places
import XmlTidy.Proofs.ReadContent
import XmlTidy.Proofs.SpelledLayout

/-!
The fragments of the children of an element, for children that stand in a text. They come one kind
after the other and are then sorted; here they are listed in the order of the children, so that
sorting them changes nothing.
-/

namespace XmlTidy

open Spelled

/-! ### The fragment of a child -/

def leafFragment (preserve : Bool) : Leaf → Fragment
  | .charData run => if preserve then .ofPreserved run else .ofReflowed run
  | .cdata token => .ofToken .cdata token
  | .comment token => .ofToken .comment token
  | .instruction token => .ofToken .instruction token
  | .reference ref => .ofReference ref

/-- The fragment of a node, given its layout if it is an element. -/
def nodeFragment (preserve : Bool) (doc : Doc) : Node → Fragment
  | .leaf l => leafFragment preserve l
  | .element tag _ => .ofElement tag doc

theorem offset_nodeFragment (preserve : Bool) (doc : Doc) (node : Node) :
    (nodeFragment preserve doc node).offset = node.span.first := by
  cases node with
  | element tag children => rfl
  | leaf l =>
      cases l with
      | charData run =>
          cases preserve with
          | true => rfl
          | false =>
              simp only [nodeFragment, leafFragment, Fragment.ofReflowed, Bool.false_eq_true, if_false]
              split <;> rfl
      | _ => rfl

/-! ### All fragments of some nodes -/

/-- The fragments of nodes, one kind after the other. -/
def kindFragments (job : Job) (preserve : Bool) (nodes : List Node) : List Fragment :=
  (nodes.filterMap Node.cdata?).map (.ofToken .cdata) ++
    (nodes.filterMap Node.comment?).map (.ofToken .comment) ++
    charDataFragments preserve (nodes.filterMap Node.charData?) ++
    Node.elementFragments job nodes ++
    (nodes.filterMap Node.instruction?).map (.ofToken .instruction) ++
    (nodes.filterMap Node.reference?).map .ofReference

theorem fragments_eq (job : Job) (preserve : Bool) (content : Content) :
    content.fragments job.style preserve (Node.elementFragments job content.children) =
      sortedBy Fragment.offset
        (kindFragments job (preserve || (job.style.sensitivity = .preserve && content.hasText))
          content.children) := rfl

theorem Node.eq_of_charData? {node : Node} {run : CharData} (h : node.charData? = some run) :
    node = .leaf (.charData run) := by
  cases node with
  | element tag children => cases h
  | leaf l => cases l <;> simp_all [Node.charData?]

section Kinds

variable {job : Job} {preserve : Bool} {nodes : List Node}

/-- A node that is no character data adds its own fragment. -/
theorem kindFragments_cons {node : Node} (h : node.charData? = none) :
    (kindFragments job preserve (node :: nodes)).Perm
      (nodeFragment preserve (node.layout job) node :: kindFragments job preserve nodes) := by
  rw [← Multiset.coe_eq_coe]
  cases node with
  | element tag children =>
      simp [kindFragments, List.filterMap_cons, Node.cdata?, Node.comment?, Node.charData?, Node.instruction?,
        Node.reference?, nodeFragment, ← Multiset.coe_add, ← Multiset.cons_coe]
  | leaf l =>
      cases l with
      | charData run => simp [Node.charData?] at h
      | _ =>
          simp [kindFragments, List.filterMap_cons, Node.cdata?, Node.comment?, Node.charData?, Node.instruction?,
            Node.reference?, nodeFragment, leafFragment, ← Multiset.coe_add, ← Multiset.cons_coe]

/-- Character data adds the fragment that it is part of. -/
theorem kindFragments_cons_run {run : CharData} {f : Fragment}
    (h : charDataFragments preserve (run :: nodes.filterMap Node.charData?) =
      f :: charDataFragments preserve (nodes.filterMap Node.charData?)) :
    (kindFragments job preserve (.leaf (.charData run) :: nodes)).Perm
      (f :: kindFragments job preserve nodes) := by
  rw [← Multiset.coe_eq_coe]
  simp [kindFragments, List.filterMap_cons, Node.cdata?, Node.comment?, Node.charData?,
    Node.instruction?, Node.reference?, h, ← Multiset.coe_add, ← Multiset.cons_coe]

theorem kindFragments_cons_runs {run run' : CharData} {f : Fragment}
    (h : charDataFragments preserve (run :: run' :: nodes.filterMap Node.charData?) =
      f :: charDataFragments preserve (nodes.filterMap Node.charData?)) :
    (kindFragments job preserve (.leaf (.charData run) :: .leaf (.charData run') :: nodes)).Perm
      (f :: kindFragments job preserve nodes) := by
  rw [← Multiset.coe_eq_coe]
  simp [kindFragments, List.filterMap_cons, Node.cdata?, Node.comment?, Node.charData?,
    Node.instruction?, Node.reference?, h, ← Multiset.coe_add, ← Multiset.cons_coe]

/-- Where runs may be reflowed, each node has its own fragment. -/
theorem kindFragments_flow (job : Job) (nodes : List Node) :
    (kindFragments job false nodes).Perm (nodes.map fun node => nodeFragment false (node.layout job) node) := by
  induction nodes with
  | nil => simp [kindFragments, charDataFragments]
  | cons node nodes ih =>
      rw [List.map_cons]
      refine List.Perm.trans ?_ (ih.cons _)
      cases hrun : node.charData? with
      | none => exact kindFragments_cons hrun
      | some run =>
          obtain rfl := Node.eq_of_charData? hrun
          exact kindFragments_cons_run rfl

end Kinds

/-! ### Preserved runs -/

theorem preservedRuns_some {f : Fragment} {span : Span} {runs : List CharData}
    (h : ∀ run ∈ runs.head?, span.touches run.span = false) :
    preservedRuns (some (f, span)) runs = f :: preservedRuns none runs := by
  cases runs with
  | nil => rfl
  | cons run runs =>
      simp [preservedRuns, h run rfl]

theorem charDataFragments_run {run : CharData} {runs : List CharData}
    (h : ∀ next ∈ runs.head?, run.span.touches next.span = false) :
    charDataFragments true (run :: runs) = .ofPreserved run :: charDataFragments true runs := by
  simp only [charDataFragments, if_true]
  rw [preservedRuns, preservedRuns_some h]

theorem charDataFragments_runs {run run' : CharData} {runs : List CharData}
    (htouches : run.span.touches run'.span = true)
    (h : ∀ next ∈ runs.head?, run'.span.touches next.span = false) :
    charDataFragments true (run :: run' :: runs) =
      (Fragment.ofPreserved run).extend run' :: charDataFragments true runs := by
  simp only [charDataFragments, if_true]
  rw [preservedRuns, preservedRuns, htouches, if_pos rfl, preservedRuns_some h]

/-! ### Children that stand in a text -/

theorem text_ne_nil {item : Item} (h : item.WellFormed) : item.text ≠ [] := by
  obtain ⟨image, rfl⟩ | ⟨image, rfl⟩ | ⟨ch, t, ht, -⟩ := Cursor.markup_head h
  · rw [Item.WellFormed] at h
    exact h.1
  · rw [Item.WellFormed] at h
    exact h.1
  · rw [ht]
    exact List.cons_ne_nil ch t

theorem span_locate (src : Source) (n : Nat) (item : Item) :
    (item.locate src n).span = src.span n (n + item.text.length) := by
  cases item with
  | leaf cls image => cases cls <;> rfl
  | empty tag =>
      rw [Item.locate, Item.text, List.length_append]
      rfl
  | full tag children endTail =>
      rw [Item.locate, Item.text, List.length_append, List.length_cons, List.length_append]
      show src.span n _ = _
      congr 1
      omega

theorem first_locate (src : Source) (n : Nat) (item : Item) : (item.locate src n).span.first = n := by
  rw [span_locate, Source.span]

theorem textAll_append (items items' : List Item) :
    Item.textAll (items ++ items') = Item.textAll items ++ Item.textAll items' := by
  induction items with
  | nil => rfl
  | cons item items ih => rw [List.cons_append, Item.textAll, Item.textAll, ih, List.append_assoc]

/-- Items that hold character data. -/
def Spelled.Item.isRun (item : Item) : Bool := item.isBlankRun || item.isText

theorem charData?_locate (src : Source) (n : Nat) (item : Item) :
    (∃ image blank, item.isRun = true ∧ item.text = image ∧
      item.locate src n = .leaf (.charData ⟨image, blank, src.span n (n + image.length)⟩)) ∨
    (item.isRun = false ∧ (item.locate src n).charData? = none) := by
  cases item with
  | leaf cls image =>
      cases cls with
      | blank => exact .inl ⟨image, true, rfl, rfl, rfl⟩
      | text => exact .inl ⟨image, false, rfl, rfl, rfl⟩
      | _ => exact .inr ⟨rfl, rfl⟩
  | empty tag => exact .inr ⟨rfl, by rw [Item.locate]; rfl⟩
  | full tag children endTail => exact .inr ⟨rfl, by rw [Item.locate]; rfl⟩

/-- Where the first run among items stands. -/
theorem head_charData {src : Source} {items : List Item} {n : Nat} {run : CharData}
    (h : run ∈ ((Item.locateAll src n items).filterMap Node.charData?).head?) :
    ∃ before item after, items = before ++ item :: after ∧ item.isRun = true ∧
      run.span = src.span (n + (Item.textAll before).length)
        (n + (Item.textAll before).length + item.text.length) := by
  induction items generalizing n with
  | nil => simp [Item.locateAll] at h
  | cons item items ih =>
      rw [Item.locateAll] at h
      obtain ⟨image, blank, hrun, rfl, hlocate⟩ | ⟨hrun, hnone⟩ := charData?_locate src n item
      · rw [hlocate] at h
        simp only [List.filterMap_cons, Node.charData?, List.head?_cons, Option.mem_def,
          Option.some.injEq] at h
        refine ⟨[], item, items, rfl, hrun, ?_⟩
        rw [← h]
        rfl
      · rw [List.filterMap_cons, hnone] at h
        obtain ⟨before, item', after, rfl, hrun', hspan⟩ := ih h
        refine ⟨item :: before, item', after, rfl, hrun', ?_⟩
        rw [hspan, Item.textAll, List.length_append]
        simp only [Nat.add_assoc]

theorem wellFormed_of_mem {item : Item} {items : List Item} (h : Item.WellFormedAll items)
    (hitem : item ∈ items) : item.WellFormed := by
  induction items with
  | nil => simp at hitem
  | cons first items ih =>
      rw [Item.WellFormedAll] at h
      rcases List.mem_cons.1 hitem with rfl | hitem
      · exact h.1
      · exact ih h.2.2 hitem

theorem wellFormedAll_tail {item : Item} {items : List Item}
    (h : Item.WellFormedAll (item :: items)) : Item.WellFormedAll items := by
  rw [Item.WellFormedAll] at h
  exact h.2.2

theorem wellFormedAll_left {items items' : List Item} (h : Item.WellFormedAll (items ++ items')) :
    Item.WellFormedAll items := by
  induction items with
  | nil => exact .intro
  | cons item items ih =>
      rw [List.cons_append, Item.WellFormedAll] at h
      rw [Item.WellFormedAll]
      refine ⟨h.1, fun next hnext => h.2.1 next ?_, ih h.2.2⟩
      cases items with
      | nil => simp at hnext
      | cons first items => simpa using hnext

theorem wellFormedAll_right {items items' : List Item} (h : Item.WellFormedAll (items ++ items')) :
    Item.WellFormedAll items' := by
  induction items with
  | nil => exact h
  | cons item items ih => exact ih (wellFormedAll_tail h)

/-- A run touches the first run behind it exactly if that follows it directly and the line goes on. -/
theorem touches_head {pre s post : Text} {items : List Item} (hs : s ≠ [])
    (hitems : Item.WellFormedAll items) {src : Source}
    (hsrc : src = Source.ofText (pre ++ (s ++ (Item.textAll items ++ post)))) {run : CharData}
    (h : run ∈ ((Item.locateAll src (pre.length + s.length) items).filterMap Node.charData?).head?)
    (htouches : (src.span pre.length (pre.length + s.length)).touches run.span = true) :
    s.getLast? ≠ some '\n' ∧ ∃ item ∈ items.head?, item.isRun = true := by
  obtain ⟨before, item, after, rfl, hrun, hspan⟩ := head_charData h
  have htext : pre ++ (s ++ (Item.textAll (before ++ item :: after) ++ post)) =
      pre ++ (s ++ (Item.textAll before ++ (Item.textAll (item :: after) ++ post))) := by
    rw [textAll_append, List.append_assoc]
  rw [htext] at hsrc
  rw [hspan, Source.touches_iff hs src hsrc] at htouches
  refine ⟨htouches.2, ?_⟩
  cases before with
  | nil => exact ⟨item, rfl, hrun⟩
  | cons first before =>
      have hfirst := text_ne_nil (@wellFormed_of_mem first _ hitems (by simp))
      rw [Item.textAll, List.append_eq_nil_iff] at htouches
      exact absurd htouches.1.1 hfirst

/-! ### Pieces that stand in a text -/

namespace Spelled

/-- The fragment of an item at an offset, given the layout of elements. -/
def Item.fragment (src : Source) (preserve : Bool) (layout : Item → Doc) (n : Nat) (item : Item) :
    Fragment :=
  nodeFragment preserve (layout item) (item.locate src n)

/-- The run of character data that an item is. -/
def Item.runAt (src : Source) (n : Nat) (item : Item) : CharData :=
  ⟨item.text, item.isBlankRun, src.span n (n + item.text.length)⟩

/-- The range that items take up. -/
def rangeAt (src : Source) (n : Nat) (items : List Item) : IgnoreRange :=
  let span := src.span n (n + (Item.textAll items).length)
  ⟨span.first, span.last, span.start.line, span.stop.line⟩

namespace Piece

def text (piece : Piece) : Text := Item.textAll piece.items

def fragment (src : Source) (source : Text) (layout : Item → Doc) (n : Nat) : Piece → Fragment
  | .range items => (rangeAt src n items).fragment source
  | .pair blanks text =>
      (Fragment.ofPreserved (blanks.runAt src n)).extend (text.runAt src (n + blanks.text.length))
  | .single item => item.fragment src true layout n

/-- The fragments of pieces one behind the other. -/
def fragmentsAt (src : Source) (source : Text) (layout : Item → Doc) : Nat → List Piece → List Fragment
  | _, [] => []
  | n, piece :: rest =>
      piece.fragment src source layout n ::
        fragmentsAt src source layout (n + piece.text.length) rest

theorem offset_fragment (src : Source) (source : Text) (layout : Item → Doc) (n : Nat)
    (piece : Piece) : (piece.fragment src source layout n).offset = n := by
  cases piece with
  | range items => rfl
  | pair blanks text => rfl
  | single item =>
      rw [fragment, Item.fragment, offset_nodeFragment, first_locate]

end Piece

end Spelled

/-- Elements among items at an offset are laid out as `layout` says. -/
def LaidOut (job : Job) (src : Source) (layout : Item → Doc) (n : Nat) (items : List Item) : Prop :=
  ∀ before item after, items = before ++ item :: after →
    (item.locate src (n + (Item.textAll before).length)).layout job = layout item

theorem LaidOut.head {job : Job} {src : Source} {layout : Item → Doc} {n : Nat} {item : Item}
    {rest : List Item} (h : LaidOut job src layout n (item :: rest)) :
    (item.locate src n).layout job = layout item :=
  h [] item rest rfl

theorem LaidOut.drop {job : Job} {src : Source} {layout : Item → Doc} {n : Nat}
    (first : List Item) {rest : List Item} (h : LaidOut job src layout n (first ++ rest)) :
    LaidOut job src layout (n + (Item.textAll first).length) rest := by
  rintro before item after rfl
  have := h (first ++ before) item after (by simp)
  rwa [textAll_append, List.length_append, ← Nat.add_assoc] at this

theorem isRun_apart {item next : Item} (h : item.Apart next) (hitem : item.isRun = true)
    (hnext : next.isRun = true) : item.isBlankRun = true ∧ next.isText = true := by
  cases item with
  | leaf cls image =>
      cases next with
      | leaf cls' image' =>
          cases cls <;> cases cls' <;>
            simp_all [Item.Apart, Item.isRun, Item.isBlankRun, Item.isText]
      | _ => simp [Item.isRun, Item.isBlankRun, Item.isText] at hnext
  | _ => simp [Item.isRun, Item.isBlankRun, Item.isText] at hitem

theorem meets_iff {item next : Item} : item.meets next = true ↔
    item.isBlankRun = true ∧ next.isText = true ∧ item.text.getLast? ≠ some '\n' := by
  cases item with
  | leaf cls image =>
      cases next with
      | leaf cls' image' =>
          cases cls <;> cases cls' <;>
            simp [Item.meets, Item.isBlankRun, Item.isText, Item.text]
      | _ => cases cls <;> simp [Item.meets, Item.isText]
  | _ => cases next <;> simp [Item.meets, Item.isBlankRun]

/-- A text takes up all that follows it up to the next markup. -/
theorem meets_of_isText {item : Item} (h : item.isText = true) (next : Item) : item.meets next = false := by
  rw [Bool.eq_false_iff, ne_eq, meets_iff]
  rintro ⟨hblank, -⟩
  cases item with
  | leaf cls image => cases cls <;> simp_all [Item.isBlankRun, Item.isText]
  | _ => simp [Item.isText] at h

theorem locate_run {src : Source} {n : Nat} {item : Item} (h : item.isRun = true) :
    item.locate src n = .leaf (.charData (item.runAt src n)) := by
  cases item with
  | leaf cls image =>
      cases cls <;> first | rfl | simp [Item.isRun, Item.isBlankRun, Item.isText] at h
  | _ => simp [Item.isRun, Item.isBlankRun, Item.isText] at h

theorem charData?_of_not_run {src : Source} {n : Nat} {item : Item} (h : item.isRun = false) :
    (item.locate src n).charData? = none := by
  obtain ⟨-, -, hrun, -⟩ | ⟨-, hnone⟩ := charData?_locate src n item
  · rw [h] at hrun
    exact Bool.noConfusion hrun
  · exact hnone

/-- The runs behind a run touch it only if it meets the next item. -/
theorem not_touches {pre post : Text} {item : Item} {rest : List Item}
    (h : Item.WellFormedAll (item :: rest)) (hrun : item.isRun = true)
    (hmeets : ∀ next ∈ rest.head?, item.meets next = false) {src : Source}
    (hsrc : src = Source.ofText (pre ++ (item.text ++ (Item.textAll rest ++ post)))) {run : CharData}
    (hmem : run ∈ ((Item.locateAll src (pre.length + item.text.length) rest).filterMap
      Node.charData?).head?) :
    (src.span pre.length (pre.length + item.text.length)).touches run.span = false := by
  rw [Item.WellFormedAll] at h
  by_contra htouches
  rw [Bool.not_eq_false] at htouches
  obtain ⟨hlast, next, hnext, hnextRun⟩ :=
    touches_head (text_ne_nil h.1) h.2.2 hsrc hmem htouches
  obtain ⟨hblank, htext⟩ := isRun_apart (h.2.1 next hnext) hrun hnextRun
  have := hmeets next hnext
  rw [meets_iff.2 ⟨hblank, htext, hlast⟩] at this
  exact Bool.noConfusion this

section Pieces

variable {job : Job} {src : Source} {pre post : Text} {item : Item} {rest : List Item}

/-- A run that meets the next one makes one fragment with it. -/
theorem kindFragments_pair {next : Item} (h : Item.WellFormedAll (item :: next :: rest))
    (hmeets : item.meets next = true)
    (hsrc : src = Source.ofText (pre ++ (Item.textAll (item :: next :: rest) ++ post))) :
    (kindFragments job true (Item.locateAll src pre.length (item :: next :: rest))).Perm
      ((Fragment.ofPreserved (item.runAt src pre.length)).extend
          (next.runAt src (pre.length + item.text.length)) ::
        kindFragments job true
          (Item.locateAll src (pre.length + item.text.length + next.text.length) rest)) := by
  obtain ⟨hblank, htext, hlast⟩ := meets_iff.1 hmeets
  have hrun : item.isRun = true := by simp [Item.isRun, hblank]
  have hrun' : next.isRun = true := by simp [Item.isRun, htext]
  have hne := text_ne_nil (wellFormed_of_mem h (List.mem_cons_self ..))
  have hsrc₁ : src = Source.ofText (pre ++ (item.text ++ ([] ++
      (next.text ++ (Item.textAll rest ++ post))))) := by
    rw [hsrc]
    simp [Item.textAll]
  have hsrc₂ : src = Source.ofText ((pre ++ item.text) ++ (next.text ++
      (Item.textAll rest ++ post))) := by
    rw [hsrc]
    simp [Item.textAll]
  have htouches : (item.runAt src pre.length).span.touches
      (next.runAt src (pre.length + item.text.length)).span = true :=
    (Source.touches_iff hne src hsrc₁ _).2 ⟨rfl, hlast⟩
  have hlast' : ∀ run ∈ ((Item.locateAll src (pre.length + item.text.length + next.text.length)
      rest).filterMap Node.charData?).head?,
      (next.runAt src (pre.length + item.text.length)).span.touches run.span = false := by
    intro run hmem
    have := @not_touches _ _ _ _ (wellFormedAll_tail h) hrun' (fun next' _ => meets_of_isText htext next') _ hsrc₂ run
    rw [List.length_append] at this
    exact this hmem
  rw [Item.locateAll, Item.locateAll, locate_run hrun, locate_run hrun']
  exact kindFragments_cons_runs (charDataFragments_runs htouches hlast')

/-- An item that does not meet the next one makes a fragment of its own. -/
theorem kindFragments_single (h : Item.WellFormedAll (item :: rest))
    (hmeets : ∀ next ∈ rest.head?, item.meets next = false)
    (hsrc : src = Source.ofText (pre ++ (Item.textAll (item :: rest) ++ post))) :
    (kindFragments job true (Item.locateAll src pre.length (item :: rest))).Perm
      (nodeFragment true ((item.locate src pre.length).layout job) (item.locate src pre.length) ::
        kindFragments job true (Item.locateAll src (pre.length + item.text.length) rest)) := by
  have hsrc' : src = Source.ofText (pre ++ (item.text ++ (Item.textAll rest ++ post))) := by
    rw [hsrc]
    simp [Item.textAll]
  rw [Item.locateAll]
  cases hrun : item.isRun with
  | true =>
      rw [locate_run hrun]
      exact kindFragments_cons_run (charDataFragments_run fun run hmem =>
        not_touches h hrun hmeets hsrc' hmem)
  | false => exact kindFragments_cons (charData?_of_not_run hrun)

end Pieces

/-- Without ranges, the pieces of items are the fragments of their nodes. -/
theorem kindFragments_perm {job : Job} {src : Source} (source : Text) {layout : Item → Doc}
    (markers : Markers) {items : List Item} (h : Item.WellFormedAll items) {pre post : Text}
    (hsrc : src = Source.ofText (pre ++ (Item.textAll items ++ post)))
    (hlayout : LaidOut job src layout pre.length items) :
    (kindFragments job true (Item.locateAll src pre.length items)).Perm
      (Piece.fragmentsAt src source layout pre.length (pieces markers false items)) := by
  induction items using pieces_induct markers false generalizing pre with
  | nil =>
      simp [pieces, Item.locateAll, kindFragments, charDataFragments, preservedRuns, Piece.fragmentsAt]
  | range item rest hrange => simp at hrange
  | pair item next rest hrange hmeets ih =>
      have hsrc' : src = Source.ofText ((pre ++ item.text ++ next.text) ++
          (Item.textAll rest ++ post)) := by
        rw [hsrc]
        simp [Item.textAll]
      have hpiece : (Piece.pair item next).text = item.text ++ next.text := by
        simp [Piece.text, Piece.items, Item.textAll]
      have hrest := ih (wellFormedAll_tail (wellFormedAll_tail h)) hsrc' (by
        rw [List.length_append, List.length_append]
        simpa [Item.textAll, Nat.add_assoc] using LaidOut.drop [item, next] hlayout)
      rw [List.length_append, List.length_append] at hrest
      rw [pieces_pair hrange hmeets, Piece.fragmentsAt, hpiece, List.length_append, ← Nat.add_assoc]
      exact (kindFragments_pair h hmeets hsrc).trans (hrest.cons _)
  | single item rest hrange hmeets ih =>
      have hsrc' : src = Source.ofText ((pre ++ item.text) ++ (Item.textAll rest ++ post)) := by
        rw [hsrc]
        simp [Item.textAll]
      have hpiece : (Piece.single item).text = item.text := by
        simp [Piece.text, Piece.items, Item.textAll]
      have hrest := ih (wellFormedAll_tail h) hsrc' (by
        rw [List.length_append]
        simpa [Item.textAll] using LaidOut.drop [item] hlayout)
      rw [List.length_append] at hrest
      rw [pieces_single hrange hmeets, Piece.fragmentsAt, hpiece, Piece.fragment, Item.fragment, ← hlayout.head]
      exact (kindFragments_single h hmeets hsrc).trans (hrest.cons _)

/-! ### Order -/

theorem le_offset_of_mem {src : Source} {source : Text} {layout : Item → Doc} {ps : List Piece} {n : Nat}
    {f : Fragment} (h : f ∈ Piece.fragmentsAt src source layout n ps) : (n : Int) ≤ f.offset := by
  induction ps generalizing n with
  | nil => simp [Piece.fragmentsAt] at h
  | cons piece ps ih =>
      rw [Piece.fragmentsAt] at h
      rcases List.mem_cons.1 h with rfl | h
      · rw [Piece.offset_fragment]
      · have := ih h
        omega

theorem offset_lt_of_mem {src : Source} {source : Text} {layout : Item → Doc} {ps : List Piece} {n : Nat}
    (hps : ∀ piece ∈ ps, piece.text ≠ []) {f : Fragment}
    (h : f ∈ Piece.fragmentsAt src source layout n ps) :
    f.offset < (n : Int) + (ps.flatMap Piece.text).length := by
  induction ps generalizing n with
  | nil => simp [Piece.fragmentsAt] at h
  | cons piece ps ih =>
      have hpos := List.length_pos_iff.2 (hps piece (by simp))
      rw [Piece.fragmentsAt] at h
      rw [List.flatMap_cons, List.length_append]
      rcases List.mem_cons.1 h with rfl | h
      · rw [Piece.offset_fragment]
        omega
      · have := ih (fun p hp => hps p (by simp [hp])) h
        push_cast at this ⊢
        omega

theorem inOrder_fragmentsAt {src : Source} {source : Text} {layout : Item → Doc} {ps : List Piece}
    (hps : ∀ piece ∈ ps, piece.text ≠ []) (n : Nat) :
    InOrder (Piece.fragmentsAt src source layout n ps) := by
  induction ps generalizing n with
  | nil => exact .nil
  | cons piece ps ih =>
      have hpos := List.length_pos_iff.2 (hps piece (by simp))
      rw [Piece.fragmentsAt, InOrder, List.pairwise_cons]
      refine ⟨fun f hf => ?_, ih (fun p hp => hps p (by simp [hp])) _⟩
      have := le_offset_of_mem hf
      rw [Piece.offset_fragment]
      push_cast at this
      omega

theorem items_ne_nil_of_mem {markers : Markers} {ranged : Bool} {items : List Item} {piece : Piece}
    (h : piece ∈ pieces markers ranged items) : piece.items ≠ [] := by
  induction items using pieces_induct markers ranged with
  | nil => simp [pieces] at h
  | range item rest hrange ih =>
      rw [pieces_range hrange] at h
      rcases List.mem_cons.1 h with rfl | h
      · simp [Piece.items]
      · exact ih h
  | pair item next rest hrange hmeets ih =>
      rw [pieces_pair hrange hmeets] at h
      rcases List.mem_cons.1 h with rfl | h
      · simp [Piece.items]
      · exact ih h
  | single item rest hrange hmeets ih =>
      rw [pieces_single hrange hmeets] at h
      rcases List.mem_cons.1 h with rfl | h
      · simp [Piece.items]
      · exact ih h

theorem piece_text_ne_nil {markers : Markers} {ranged : Bool} {items : List Item}
    (hitems : Item.WellFormedAll items) {piece : Piece} (h : piece ∈ pieces markers ranged items) :
    piece.text ≠ [] := by
  obtain ⟨item, rest, hcons⟩ := List.exists_cons_of_ne_nil (items_ne_nil_of_mem h)
  have hmem : item ∈ items := by
    rw [← flatMap_pieces markers ranged items, List.mem_flatMap]
    exact ⟨piece, h, by simp [hcons]⟩
  rw [Piece.text, hcons, Item.textAll]
  simp [text_ne_nil (wellFormed_of_mem hitems hmem)]

theorem flatMap_text (ps : List Piece) :
    ps.flatMap Piece.text = Item.textAll (ps.flatMap Piece.items) := by
  induction ps with
  | nil => rfl
  | cons piece ps ih => rw [List.flatMap_cons, List.flatMap_cons, textAll_append, ih, Piece.text]

end XmlTidy
