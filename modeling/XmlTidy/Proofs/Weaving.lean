import Mathlib.Data.List.Chain
import XmlTidy.Proofs.ElementRoom
import XmlTidy.Proofs.Spacing

/-!
Putting entries back together into children. Each entry is an item behind its blanks; where blanks follow
a text they become part of it, so that the children are well formed. Apart from that, the entries of
the children are the entries that they were put together from.
-/

namespace XmlTidy

namespace Spelled

/-- A run of blanks, if there are any. -/
def blankRun (gap : Text) : List Item := if gap.isEmpty then [] else [.leaf .blank gap]

/-- Entries one behind the other, with blanks at the end. -/
def weave : List Entry → Text → List Item
  | [], tail => blankRun tail
  | e :: rest, tail => blankRun e.gap ++ e.item :: weave rest tail

/-- The text of entries one behind the other. -/
def entriesText (es : List Entry) : Text := es.flatMap fun e => e.gap ++ e.item.text

/-- The last item stands at the end of the text of the entries. -/
theorem beforeLast_append (before : Text) (item : Item) (es : List Entry) :
    beforeLast before item es ++ (lastOf item es).text = before ++ (item.text ++ entriesText es) := by
  induction es generalizing before item with
  | nil => simp [beforeLast, lastOf, entriesText]
  | cons e rest ih =>
      rw [beforeLast, lastOf, ih]
      simp [entriesText]

theorem textAll_blankRun (gap : Text) : Item.textAll (blankRun gap) = gap := by
  rw [blankRun]
  split
  · next h => rw [List.isEmpty_iff.1 h]; rfl
  · simp [Item.textAll, Item.text]

theorem textAll_weave (es : List Entry) (tail : Text) :
    Item.textAll (weave es tail) = entriesText es ++ tail := by
  induction es with
  | nil => exact textAll_blankRun tail
  | cons e rest ih =>
      rw [weave, textAll_append, textAll_blankRun, Item.textAll, ih]
      simp [entriesText]

theorem entries_blankRun (gap : Text) (rest : List Item) :
    entries [] (blankRun gap ++ rest) = entries gap rest := by
  rw [blankRun]
  split
  · next h => rw [List.isEmpty_iff.1 h]; rfl
  · exact entries_blank [] gap rest

/-! ### Blanks behind text -/

/-- Blanks behind a text become part of it. -/
def joinRuns : List Item → List Item
  | .leaf .text image :: .leaf .blank blanks :: rest => .leaf .text (image ++ blanks) :: joinRuns rest
  | item :: rest => item :: joinRuns rest
  | [] => []

theorem textAll_joinRuns (items : List Item) : Item.textAll (joinRuns items) = Item.textAll items := by
  fun_induction joinRuns items with
  | case1 image blanks rest ih => simp [Item.textAll, Item.text, ih]
  | case2 item rest _ ih => rw [Item.textAll, Item.textAll, ih]
  | case3 => rfl

/-- An item with blanks behind it, which become part of a text. -/
def Item.extend (blanks : Text) : Item → Item
  | .leaf .text image => .leaf .text (image ++ blanks)
  | item => item

/-- The blanks in front of the first entry, or those at the end if there is none. -/
def headGap (tail : Text) : List Entry → Text
  | [] => tail
  | e :: _ => e.gap

/-- An entry as it is read: the blanks in front of it are part of a text before it, and those behind it
part of its own text. -/
def Entry.settled (behindText : Bool) (behind : Text) (e : Entry) : Entry :=
  ⟨if behindText then [] else e.gap, e.item.extend behind⟩

/-- Entries as they are read. -/
def settle (tail : Text) (behindText : Bool) : List Entry → List Entry
  | [] => []
  | e :: rest => e.settled behindText (headGap tail rest) :: settle tail e.item.isText rest

theorem headGap_append (tail : Text) (es fs : List Entry) :
    headGap tail (es ++ fs) = headGap (headGap tail fs) es := by
  cases es <;> rfl

theorem settle_append (tail : Text) (item : Item) (es fs : List Entry) :
    settle tail item.isText (es ++ fs) =
      settle (headGap tail fs) item.isText es ++ settle tail (lastOf item es).isText fs := by
  induction es generalizing item with
  | nil => rfl
  | cons e rest ih => rw [List.cons_append, settle, settle, headGap_append, ih, List.cons_append, lastOf]

theorem extend_of_not_text {item : Item} (h : item.isText = false) (blanks : Text) :
    item.extend blanks = item := by
  cases item with
  | leaf cls image => cases cls <;> first | rfl | cases h
  | _ => rfl

theorem isComment_extend (item : Item) (blanks : Text) : (item.extend blanks).isComment = item.isComment := by
  cases item with
  | leaf cls image => cases cls <;> rfl
  | _ => rfl

theorem isInline_extend (item : Item) (blanks : Text) : (item.extend blanks).isInline = item.isInline := by
  cases item with
  | leaf cls image => cases cls <;> rfl
  | _ => rfl

/-- What is woven from entries, without the blanks at the front. -/
def weaveTail (tail : Text) : List Entry → List Item
  | [] => []
  | e :: rest => e.item :: weave rest tail

theorem weave_eq (es : List Entry) (tail : Text) :
    weave es tail = blankRun (headGap tail es) ++ weaveTail tail es := by
  cases es with
  | nil => simp [weave, headGap, weaveTail]
  | cons e rest => rfl

theorem joinRuns_cons {item : Item} (h : item.isText = false) (rest : List Item) :
    joinRuns (item :: rest) = item :: joinRuns rest := by
  rw [joinRuns]
  rintro image blanks rest' rfl
  cases h

theorem joinRuns_blankRun (gap : Text) (items : List Item) :
    joinRuns (blankRun gap ++ items) = blankRun gap ++ joinRuns items := by
  rw [blankRun]
  split
  · rfl
  · exact joinRuns_cons rfl items

/-- Blanks behind a text, if there are any, join it. -/
theorem joinRuns_text (image blanks : Text) {items : List Item}
    (h : ∀ item ∈ items.head?, item.isBlankRun = false) :
    joinRuns (.leaf .text image :: (blankRun blanks ++ items)) =
      .leaf .text (image ++ blanks) :: joinRuns items := by
  rw [blankRun]
  split
  · next hempty =>
      rw [List.isEmpty_iff.1 hempty, List.append_nil, List.nil_append]
      cases items with
      | nil => rfl
      | cons item items =>
          have hitem := h item rfl
          rw [joinRuns]
          rintro image' blanks' rest - heq
          obtain ⟨rfl, -⟩ := List.cons.inj heq
          cases hitem
  · rfl

/-- The entries of what is woven from entries. -/
theorem entries_joinRuns {es : List Entry} (h : ∀ e ∈ es, e.item.isBlankRun = false) (tail : Text)
    (behindText : Bool) :
    entries (if behindText then [] else headGap tail es) (joinRuns (weaveTail tail es)) =
      settle tail behindText es := by
  induction es generalizing behindText with
  | nil => rfl
  | cons e rest ih =>
      have hrest : ∀ e' ∈ rest, e'.item.isBlankRun = false := fun e' he => h e' (by simp [he])
      have hhead : ∀ item ∈ (weaveTail tail rest).head?, item.isBlankRun = false := by
        cases rest with
        | nil => simp [weaveTail]
        | cons e' rest => simpa [weaveTail] using hrest e' (by simp)
      rw [weaveTail, weave_eq, settle, Entry.settled]
      cases htext : e.item.isText with
      | true =>
          obtain ⟨image, hitem⟩ := exists_of_isText htext
          rw [hitem, joinRuns_text image _ hhead, entries_cons _ rfl, ← ih hrest true]
          rfl
      | false =>
          rw [joinRuns_cons htext, joinRuns_blankRun, entries_cons _ (h e (by simp)), entries_blankRun,
            extend_of_not_text htext, ← ih hrest false]
          rfl

/-- Items that become well formed when blanks join the text before them. -/
def Loose : List Item → Prop
  | [] => True
  | item :: rest =>
      item.WellFormed ∧ (item.isBlankRun = true → ∀ next ∈ rest.head?, next.isBlankRun = false) ∧
        (item.isText = true → ∀ next ∈ (rest.dropWhile Item.isBlankRun).head?, next.isText = false) ∧
        Loose rest

theorem isTextChar_of_isBlank {c : Char} (h : isBlank c = true) : Cursor.isTextChar c = true := by
  have hangle : c ≠ '<' := by rintro rfl; simp [isBlank] at h
  have hamp : c ≠ '&' := by rintro rfl; simp [isBlank] at h
  simp [Cursor.isTextChar, hangle, hamp]

theorem head_joinRuns {items : List Item} {item : Item} (h : item ∈ (joinRuns items).head?) :
    ∃ first ∈ items.head?, first.isText = item.isText ∧ first.isBlankRun = item.isBlankRun := by
  fun_induction joinRuns items with
  | case1 image blanks rest ih =>
      obtain rfl : Item.leaf .text (image ++ blanks) = item := by simpa using h
      exact ⟨_, rfl, rfl, rfl⟩
  | case2 first rest _ ih =>
      obtain rfl : first = item := by simpa using h
      exact ⟨_, rfl, rfl, rfl⟩
  | case3 => simp at h

theorem apart_of {item next : Item} (hblank : item.isBlankRun = true → next.isBlankRun = false)
    (htext : item.isText = true → next.isText = false ∧ next.isBlankRun = false) : item.Apart next := by
  cases item with
  | leaf cls image =>
      cases next with
      | leaf cls' image' =>
          cases cls <;> cases cls' <;>
            simp_all [Item.Apart, Item.isBlankRun, Item.isText]
      | _ => cases cls <;> exact trivial
  | _ => exact trivial

theorem wellFormedAll_joinRuns {items : List Item} (h : Loose items) : Item.WellFormedAll (joinRuns items) := by
  fun_induction joinRuns items with
  | case1 image blanks rest ih =>
      rw [Loose, Loose] at h
      obtain ⟨himage, -, htext, hblanks, hnext, -, hrest⟩ := h
      have hdrop : (Item.leaf .blank blanks :: rest).dropWhile Item.isBlankRun = rest := by
        rw [List.dropWhile_cons_of_pos rfl]
        cases rest with
        | nil => rfl
        | cons next rest => rw [List.dropWhile_cons_of_neg (by simp [hnext rfl next rfl])]
      rw [hdrop] at htext
      rw [Item.WellFormed] at himage hblanks
      obtain ⟨hne, hstops, hchars⟩ := himage
      rw [Item.WellFormedAll]
      refine ⟨?_, fun next hmem => ?_, ih hrest⟩
      · rw [Item.WellFormed]
        refine ⟨by simp [hne], (stops_append hne).2 hstops, fun c hc => ?_⟩
        rcases List.mem_append.1 hc with hc | hc
        · exact hchars c hc
        · exact isTextChar_of_isBlank (hblanks.2 c hc)
      · obtain ⟨first, hfirst, hsameText, hsameBlank⟩ := head_joinRuns hmem
        refine apart_of (by rintro ⟨⟩) fun _ => ?_
        rw [← hsameText, ← hsameBlank]
        exact ⟨htext rfl first hfirst, hnext rfl first hfirst⟩
  | case2 item rest hnot ih =>
      rw [Loose] at h
      obtain ⟨hitem, hblank, htext, hrest⟩ := h
      rw [Item.WellFormedAll]
      refine ⟨hitem, fun next hmem => ?_, ih hrest⟩
      obtain ⟨first, hfirst, hsameText, hsameBlank⟩ := head_joinRuns hmem
      obtain ⟨tail, rfl⟩ := List.head?_eq_some_iff.1 hfirst
      refine apart_of (fun h => hsameBlank ▸ hblank h first hfirst) fun h => ?_
      rw [← hsameText, ← hsameBlank]
      obtain ⟨image, rfl⟩ := exists_of_isText h
      have hfirstBlank : first.isBlankRun = false := by
        by_contra hpos
        obtain ⟨blanks, rfl⟩ := exists_of_isBlankRun (by simpa using hpos)
        exact hnot image blanks tail rfl rfl
      rw [List.dropWhile_cons_of_neg (by simp [hfirstBlank])] at htext
      exact ⟨htext rfl first rfl, hfirstBlank⟩
  | case3 => exact .intro

theorem head_dropWhile_weave {es : List Entry} (h : ∀ e ∈ es, e.item.isBlankRun = false) (tail : Text) :
    ((weave es tail).dropWhile Item.isBlankRun).head? = es.head?.map Entry.item := by
  have hdrop : ∀ gap items, (blankRun gap ++ items).dropWhile Item.isBlankRun =
      items.dropWhile Item.isBlankRun := by
    intro gap items
    rw [blankRun]
    split
    · rfl
    · exact List.dropWhile_cons_of_pos rfl
  cases es with
  | nil => simpa [weave] using congrArg List.head? (hdrop tail [])
  | cons e rest =>
      rw [weave, hdrop, List.dropWhile_cons_of_neg (by simp [h e (by simp)])]
      rfl

theorem loose_blankRun {gap : Text} (hgap : Blanks gap) {items : List Item} (h : Loose items)
    (hhead : ∀ next ∈ items.head?, next.isBlankRun = false) : Loose (blankRun gap ++ items) := by
  rw [blankRun]
  split
  · exact h
  · next hne =>
      rw [List.singleton_append, Loose, Item.WellFormed]
      exact ⟨⟨by simpa using hne, hgap⟩, fun _ => hhead, by rintro ⟨⟩, h⟩

/-- Entries of which no two texts are neighbours can be put together. -/
theorem loose_weave {es : List Entry} (h : ∀ e ∈ es, e.item.isBlankRun = false)
    (hgaps : ∀ e ∈ es, Blanks e.gap) (hitems : ∀ e ∈ es, e.item.WellFormed)
    (htexts : es.IsChain fun a b => a.item.isText = true → b.item.isText = false) {tail : Text}
    (htail : Blanks tail) : Loose (weave es tail) := by
  induction es with
  | nil =>
      have hnil : Loose [] := trivial
      simpa [weave] using loose_blankRun htail hnil (by simp)
  | cons e rest ih =>
      have hsolid := h e (by simp)
      rw [weave]
      refine loose_blankRun (hgaps e (by simp)) ?_ (by simpa using hsolid)
      rw [Loose]
      refine ⟨hitems e (by simp), by simp [hsolid], fun htext next hnext => ?_, ?_⟩
      · rw [head_dropWhile_weave fun e' he => h e' (by simp [he])] at hnext
        obtain ⟨e', he', rfl⟩ := Option.map_eq_some_iff.1 hnext
        obtain ⟨more, rfl⟩ := List.head?_eq_some_iff.1 he'
        exact (List.isChain_cons_cons.1 htexts).1 htext
      · exact ih (fun e' he => h e' (by simp [he])) (fun e' he => hgaps e' (by simp [he]))
          (fun e' he => hitems e' (by simp [he])) (List.IsChain.of_cons htexts)

/-! ### Children that are reflowed -/

/-- What an entry may be printed as. -/
structure Entry.Laid (style : Style) (page : Page) (e e' : Entry) : Prop where
  item : Flowed (Item.Laid style page) e.item e'.item
  wellFormed : e'.item.WellFormed
  trimmed : e'.item.endsBlank = false
  gap : Blanks e'.gap

theorem Entry.Laid.flowed {style : Style} {page : Page} {e e' : Entry} (h : e.Laid style page e') :
    Flowed (Item.Reshaped style) e.item e'.item := h.item.reshaped

theorem Flowed.isBlankRun_eq {style : Style} {item item' : Item}
    (h : Flowed (Item.Reshaped style) item item') : item'.isBlankRun = item.isBlankRun := by
  cases h with
  | text => rfl
  | other _ h => exact h.alike.isBlankRun_eq

theorem not_text_of_apart {image : Text} {next : Item} (h : (Item.leaf .text image).Apart next) :
    next.isBlankRun = false ∧ next.isText = false := by
  cases next with
  | leaf cls image' => cases cls <;> first | exact ⟨rfl, rfl⟩ | exact h.elim
  | _ => exact ⟨rfl, rfl⟩

/-- No two texts are neighbours among well-formed items. -/
theorem isChain_entries (gap : Text) {items : List Item} (h : Item.WellFormedAll items) :
    (entries gap items).IsChain fun a b => a.item.isText = true → b.item.isText = false := by
  fun_induction entries gap items with
  | case1 => exact .nil
  | case2 gap image rest ih =>
      rw [Item.WellFormedAll] at h
      exact ih h.2.2
  | case3 gap item rest _ ih =>
      rw [Item.WellFormedAll] at h
      obtain ⟨-, hapart, hrest⟩ := h
      refine List.isChain_cons.2 ⟨fun e he htext => ?_, ih hrest⟩
      obtain ⟨image, rfl⟩ := exists_of_isText htext
      cases rest with
      | nil => simp [entries] at he
      | cons next rest =>
          obtain ⟨hblank, hnext⟩ := not_text_of_apart (hapart next rfl)
          rw [entries_cons _ hblank] at he
          obtain rfl : ⟨[], next⟩ = e := by simpa using he
          exact hnext

/-- Entries of which none has blanks between itself and a text before it. -/
def Tied : Option Item → List Entry → Prop
  | _, [] => True
  | previous, e :: rest => ((∃ item ∈ previous, item.isText = true) → e.gap = []) ∧ Tied (some e.item) rest

theorem tied_entries {previous : Option Item} {gap : Text} {items : List Item} (h : Item.WellFormedAll items)
    (hprevious : (∃ item ∈ previous, item.isText = true) →
      gap = [] ∧ ∀ item ∈ items.head?, item.isBlankRun = false) : Tied previous (entries gap items) := by
  fun_induction entries gap items generalizing previous with
  | case1 => exact .intro
  | case2 gap image rest ih =>
      rw [Item.WellFormedAll] at h
      exact ih h.2.2 fun htext => absurd ((hprevious htext).2 _ rfl) Bool.false_ne_true.symm
  | case3 gap item rest _ ih =>
      rw [Item.WellFormedAll] at h
      obtain ⟨-, hapart, hrest⟩ := h
      refine ⟨fun htext => (hprevious htext).1, ih hrest ?_⟩
      rintro ⟨item', hitem', htext⟩
      obtain rfl : item = item' := by simpa using hitem'
      obtain ⟨image, rfl⟩ := exists_of_isText htext
      exact ⟨rfl, fun next hnext => (not_text_of_apart (hapart next hnext)).1⟩

theorem not_blank_of_mem_entries {gap : Text} {items : List Item} {e : Entry} (h : e ∈ entries gap items) :
    e.item.isBlankRun = false := by
  have hmem : e.item ∈ solids items := by
    rw [← map_item_entries gap]
    exact List.mem_map_of_mem h
  simpa [solids] using (List.mem_filter.1 hmem).2

section Printed

variable {style : Style} {page : Page} {es es' : List Entry}

theorem isChain_of_reshaped (h : List.Forall₂ (Entry.Laid style page) es es')
    (hchain : es.IsChain fun a b => a.item.isText = true → b.item.isText = false) :
    es'.IsChain fun a b => a.item.isText = true → b.item.isText = false := by
  induction h with
  | nil => exact .nil
  | cons he hrest ih =>
      obtain ⟨hhead, htail⟩ := List.isChain_cons.1 hchain
      refine List.isChain_cons.2 ⟨fun b hb htext => ?_, ih htail⟩
      cases hrest with
      | nil => simp at hb
      | cons hnext _ =>
          obtain rfl : _ = b := by simpa using hb
          rw [hnext.flowed.isText_eq]
          exact hhead _ rfl (by rwa [← he.flowed.isText_eq])

theorem Flowed.extend {item item' : Item} (h : Flowed (Item.Laid style page) item item') {blanks : Text}
    (hblanks : Blanks blanks) : Flowed (Item.Laid style page) item (item'.extend blanks) := by
  cases htext : item'.isText with
  | false => rwa [extend_of_not_text htext]
  | true =>
      obtain ⟨image, rfl⟩ := exists_of_isText htext
      cases h with
      | text htokens => exact .text ((sameTokens_append_blanks image hblanks).tokens_eq.symm.trans htokens)
      | other hitem h => exact absurd (h.reshaped.alike.isText_eq.trans hitem) (by rintro ⟨⟩)

theorem blanks_headGap {tail : Text} (h : List.Forall₂ (Entry.Laid style page) es es') (htail : Blanks tail) :
    Blanks (headGap tail es') := by
  cases h with
  | nil => exact htail
  | cons he _ => exact he.gap

theorem flowed_settle (h : List.Forall₂ (Entry.Laid style page) es es') {tail : Text} (htail : Blanks tail)
    (behindText : Bool) :
    List.Forall₂ (Flowed (Item.Laid style page)) (es.map Entry.item)
      ((settle tail behindText es').map Entry.item) := by
  induction h generalizing behindText with
  | nil => exact .nil
  | cons he hrest ih => exact .cons (he.item.extend (blanks_headGap hrest htail)) (ih _)

/-- Neighbours that stand at the same place with the same blanks between them. -/
structure Neighbours.SamePlace (n n' : Neighbours) : Prop where
  before : n'.before = n.before
  blanks : n'.blanks = n.blanks
  front : n'.front = n.front

theorem text_extend (item : Item) (gap : Text) :
    (item.extend gap).text ++ (if item.isText then [] else gap) = item.text ++ gap := by
  cases htext : item.isText with
  | false => rw [extend_of_not_text htext]; rfl
  | true =>
      obtain ⟨image, rfl⟩ := exists_of_isText htext
      simp [Item.extend, Item.text]

theorem blanks_extend {item : Item} (h : item.endsBlank = false) {gap : Text} (hgap : Blanks gap) :
    (item.extend gap).endBlanks ++ (if item.isText then [] else gap) = gap := by
  cases htext : item.isText with
  | false => rw [extend_of_not_text htext, Item.endBlanks_of_not_text htext]; rfl
  | true =>
      obtain ⟨image, rfl⟩ := exists_of_isText htext
      rw [Item.extend, Item.endBlanks, Text.endBlanks_append h hgap]
      exact List.append_nil gap

/-- Blanks that join a text stand behind it. -/
theorem dropEndWhile_extend {item : Item} (h : item.endsBlank = false) {gap : Text} (hgap : Blanks gap) :
    (item.extend gap).text.dropEndWhile isBlank = item.text.dropEndWhile isBlank := by
  cases htext : item.isText with
  | false => rw [extend_of_not_text htext]
  | true =>
      obtain ⟨image, rfl⟩ := exists_of_isText htext
      have hlonger := Text.dropEndWhile_append_endBlanks (image ++ gap)
      rw [Text.endBlanks_append h hgap, List.append_cancel_right_eq] at hlonger
      exact hlonger.trans (Text.dropEndWhile_of_trimmed h).symm

theorem Item.endBlanks_of_trimmed {item : Item} (h : item.endsBlank = false) : item.endBlanks = [] := by
  simpa [Item.endsBlank_eq] using h

/-- Blanks that join the text before them stand between the same neighbours. -/
theorem neighboursFrom_settle {item : Item} (hitem : item.endsBlank = false) {es : List Entry}
    (h : ∀ e ∈ es, e.item.endsBlank = false ∧ Blanks e.gap) (tail before : Text) :
    List.Forall₂ Neighbours.SamePlace (neighboursFrom before item es)
      (neighboursFrom before (item.extend (headGap tail es)) (settle tail item.isText es)) := by
  induction es generalizing before item with
  | nil => exact .nil
  | cons e rest ih =>
      obtain ⟨htrimmed, hgap⟩ := h e (by simp)
      rw [settle, neighboursFrom, neighboursFrom, headGap, Entry.settled, text_extend]
      refine .cons ⟨rfl, ?_, ?_⟩ (ih htrimmed (fun e' he => h e' (by simp [he])) _)
      · rw [Neighbours.blanks, blanks_extend hitem hgap, Neighbours.blanks, Item.endBlanks_of_trimmed hitem]
        rfl
      · rw [Neighbours.front, Neighbours.front, dropEndWhile_extend hitem hgap]

theorem neighbours_settle {es : List Entry} (h : ∀ e ∈ es, e.item.endsBlank = false ∧ Blanks e.gap)
    (tail before : Text) :
    List.Forall₂ Neighbours.SamePlace (neighbours before es) (neighbours before (settle tail false es)) := by
  cases es with
  | nil => exact .nil
  | cons e rest =>
      exact neighboursFrom_settle (h e (by simp)).1 (fun e' he => h e' (by simp [he])) tail _

theorem forall₂_trans {α β γ : Type} {R : α → β → Prop} {S : β → γ → Prop} {T : α → γ → Prop}
    {as : List α} {bs : List β} {cs : List γ} (h : List.Forall₂ R as bs) (h' : List.Forall₂ S bs cs)
    (hT : ∀ a b c, R a b → S b c → T a c) : List.Forall₂ T as cs := by
  induction h generalizing cs with
  | nil =>
      cases h'
      exact .nil
  | cons hab _ ih =>
      cases h' with
      | cons hbc hrest => exact .cons (hT _ _ _ hab hbc) (ih hrest)

theorem Neighbours.Laid.of_samePlace {depth : Nat} {n n' n'' : Neighbours} (h : n.Laid page depth n')
    (hsame : n'.SamePlace n'') : n.Laid page depth n'' := by
  rw [Neighbours.Laid, hsame.before, hsame.blanks, hsame.front]
  exact h

end Printed

/-- Entries as they are printed, with blanks behind them, make up children. -/
theorem exists_children {style : Style} {page : Page} {children : List Item}
    (hchildren : Item.WellFormedAll children) {es : List Entry}
    (h : List.Forall₂ (Entry.Laid style page) (entries [] children) es) {tail : Text} (htail : Blanks tail) :
    ∃ children', Item.WellFormedAll children' ∧ Item.textAll children' = entriesText es ++ tail ∧
      List.Forall₂ (Flowed (Item.Laid style page)) (solids children) (solids children') ∧
      entries [] children' = settle tail false es := by
  have hsolid : ∀ e ∈ es, e.item.isBlankRun = false :=
    forall_of_forall₂ h fun e he e' hr => hr.flowed.isBlankRun_eq.trans (not_blank_of_mem_entries he)
  have hloose : Loose (weave es tail) :=
    loose_weave hsolid (forall_of_forall₂ h fun _ _ _ hr => hr.gap)
      (forall_of_forall₂ h fun _ _ _ hr => hr.wellFormed)
      (isChain_of_reshaped h (isChain_entries [] hchildren)) htail
  have hentries : entries [] (joinRuns (weave es tail)) = settle tail false es := by
    rw [weave_eq, joinRuns_blankRun, entries_blankRun]
    exact entries_joinRuns hsolid tail false
  refine ⟨joinRuns (weave es tail), wellFormedAll_joinRuns hloose, ?_, ?_, hentries⟩
  · rw [textAll_joinRuns, textAll_weave]
  · rw [← map_item_entries [], ← map_item_entries [], hentries]
    exact flowed_settle h htail false

end Spelled

end XmlTidy
