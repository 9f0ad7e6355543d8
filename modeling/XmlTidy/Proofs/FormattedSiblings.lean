import XmlTidy.Proofs.SpaceScope

/-!
What formatting does to the blanks between siblings. Siblings that stand apart never touch each other in the result.
Text and references that touch each other do so in the result if whitespace is kept there or both fit on the
line; a line end inside of one of them is enough to break them apart. Between other children than text one
blank line is left of any number, but the blank lines behind a text are lost.
-/

namespace XmlTidy

open Spelled

/-- Siblings that are the same nodes, up to what printing is free to change in them. -/
def Siblings.Match (sorted : Bool) (s s' : Siblings) : Prop :=
  s.left.SameSkeleton sorted s'.left ∧ s.right.SameSkeleton sorted s'.right

namespace Formatter

/-- With a valid profile and no embedders, every text that can be read is formatted, and the siblings in its
elements are spaced in the result. -/
theorem exists_spaced {profile : Profile} (hvalid : profile.Valid) {correlationId : Option String}
    {f : Formatter} (hmake : make profile correlationId [] = .ok f) {t : Text} {d : Document}
    (hread : read t = .ok d) :
    ∃ r page, f.format t = .ok r ∧ profile.page? = some page ∧
      ((∀ p ∈ d.prolog, p.attributes ≠ []) → ∃ d', read r.formatted = .ok d') ∧
      ∀ d', read r.formatted = .ok d' →
        List.Forall₂ (fun e e' : Element => List.Forall₂ (Siblings.Spaced profile.style page r.formatted.normalize
          (d.KeepsSpace profile.style e)) e.siblings e'.siblings) d.elements d'.elements := by
  obtain ⟨r, page, hformat, hpage, hreadable, hspaced⟩ := exists_spacedAll hvalid hmake hread
  exact ⟨r, page, hformat, hpage, hreadable, fun d' hread' => (hspaced d' hread').imp fun _ _ h => h.siblings⟩

/-! ### Samples -/

/-- Text that touches a reference, text that stands apart from what follows, and blank lines between elements. -/
def siblingText : Text := "<a>one&amp;two <b/>\n\n\n<c/></a>".toList

/-- What the samples ask of the document that a text is read as: no declaration, and a root in which whitespace does
not count. -/
def rootTest (p : Element → Bool) (d : Document) : Bool :=
  d.prolog.isNone && d.root.any fun e : Element => !decide (e.SpaceCounts ignoring.style) && p e

theorem exists_root_of_test {t : Text} {p : Element → Bool} (h : (read t).toOption.any (rootTest p) = true) :
    ∃ d e, read t = .ok d ∧ (∀ x ∈ d.prolog, x.attributes ≠ []) ∧ d.root = some e ∧
      ¬d.KeepsSpace ignoring.style e ∧ p e = true := by
  obtain ⟨d, hread, htest⟩ := exists_ok_of_any h
  rw [rootTest, Bool.and_eq_true, Option.isNone_iff_eq_none, Option.any_eq_true] at htest
  obtain ⟨hnone, e, he, htest⟩ := htest
  rw [Bool.and_eq_true, Bool.not_eq_true', decide_eq_false_iff_not] at htest
  refine ⟨d, e, hread, by simp [hnone], he, ?_, htest.2⟩
  rintro (hignored | hcounts)
  · rw [Document.ignores_root hread he] at hignored
    cases hignored
  · exact htest.1 hcounts

theorem rel_of_head? {α : Type} {R : α → α → Prop} {l l' : List α} (h : List.Forall₂ R l l') {a b : α}
    (ha : l.head? = some a) (hb : l'.head? = some b) : R a b := by
  cases h with
  | nil => cases ha
  | cons hab _ =>
      obtain rfl := Option.some.inj ha
      obtain rfl := Option.some.inj hb
      exact hab

/-- An element without attributes. -/
def plainRoot (children : List Item) : Item := .full ⟨['a'], [], []⟩ children []

theorem exists_format_plainRoot {children : List Item} (h : Item.WellFormedAll children) {t : Text}
    (ht : t.normalize = (Whole.ofRoot (plainRoot children) []).text) :
    ∃ r, format { profile := ignoring } t = .ok r ∧ r.formatted =
      marked t ((((Whole.ofRoot (plainRoot children) []).doc ignoring.style).run defaultPage 0 .broken .clear
        .empty).text.withLineEnds LineEnd.lf.image) := by
  have hname : Name.IsName ['a'] := ⟨'a', [], rfl, rfl, by simp⟩
  have hroot : (plainRoot children).WellFormed := by
    rw [plainRoot, Item.WellFormed]
    exact ⟨⟨hname, List.forall_mem_nil _, blanks_nil⟩, h, blanks_nil⟩
  exact @format_eq { profile := ignoring } defaultPage .lf rfl rfl rfl rfl _ _
    (@Whole.wellFormed_ofRoot (plainRoot children) trivial hroot [] blanks_nil) ht

/-- Text of two lines in front of a reference. -/
def twoLineChildren : List Item :=
  [.leaf .text "x\ny".toList, .leaf (.reference .entity) "&amp;".toList, .leaf .text ['z'], .empty ⟨['b'], [], []⟩]

/-- Text with a blank line behind it. -/
def trailingChildren : List Item := [.leaf .text "text\n\n".toList, .empty ⟨['b'], [], []⟩]

theorem wellFormedAll_samples : Item.WellFormedAll twoLineChildren ∧ Item.WellFormedAll trailingChildren := by
  have hname : ∀ c, Name.isStart c = true → Name.IsName [c] := fun c hc => ⟨c, [], rfl, hc, by simp⟩
  have hshort : Open.WellFormed ⟨['b'], [], []⟩ := ⟨hname _ rfl, List.forall_mem_nil _, blanks_nil⟩
  have hreference : Reference.IsReference .entity "&amp;".toList :=
    @Reference.IsReference.entity "amp".toList ⟨'a', "mp".toList, rfl, rfl, List.all_eq_true.1 rfl⟩
  have htext : ∀ c rest, isBlank c = false → (c :: rest).all Cursor.isTextChar = true →
      LeafClass.Image .text (c :: rest) := fun c rest hc hall => ⟨by simp, stops_cons.2 hc, List.all_eq_true.1 hall⟩
  simp only [twoLineChildren, trailingChildren, Item.WellFormedAll, Item.WellFormed, List.head?_cons, List.head?_nil,
    Option.mem_def, Option.some.injEq, reduceCtorEq, forall_eq', false_implies, implies_true, and_true]
  exact ⟨⟨htext _ _ rfl rfl, trivial, hreference, trivial, htext _ _ rfl rfl, trivial, hshort⟩,
    htext _ _ rfl rfl, trivial, hshort⟩

/-! ### Siblings that stand apart -/

/-- Siblings with blanks between them have blanks between them in the result. -/
theorem read_format_apart {profile : Profile} (hvalid : profile.Valid) {correlationId : Option String}
    {f : Formatter} (hmake : make profile correlationId [] = .ok f) {t : Text} {d : Document}
    (hread : read t = .ok d) :
    ∃ r, f.format t = .ok r ∧
      ((∀ p ∈ d.prolog, p.attributes ≠ []) → ∃ d', read r.formatted = .ok d') ∧
      ∀ d', read r.formatted = .ok d' →
        List.Forall₂ (fun e e' : Element => List.Forall₂ (fun s s' : Siblings =>
          s.Match profile.style.sortAttributes s' ∧ (s.blanks ≠ [] → s'.blanks ≠ [])) e.siblings e'.siblings)
          d.elements d'.elements := by
  obtain ⟨r, page, hformat, -, hreadable, hspaced⟩ := exists_spaced hvalid hmake hread
  refine ⟨r, hformat, hreadable, fun d' hread' => (hspaced d' hread').imp fun e e' he => ?_⟩
  exact he.imp fun s s' hs => ⟨⟨hs.left, hs.right⟩, hs.apart⟩

theorem read_format_apart_sample :
    ∃ d r d', read siblingText = .ok d ∧ (∃ e ∈ d.elements, ∃ s ∈ e.siblings, s.blanks ≠ []) ∧
      format { profile := ignoring } siblingText = .ok r ∧ read r.formatted = .ok d' ∧
      List.Forall₂ (fun e e' : Element => List.Forall₂ (fun s s' : Siblings =>
        s.Match ignoring.style.sortAttributes s' ∧ (s.blanks ≠ [] → s'.blanks ≠ [])) e.siblings e'.siblings)
        d.elements d'.elements := by
  obtain ⟨d, e, hread, hprolog, he, -, htest⟩ := @exists_root_of_test siblingText
    (fun e => e.siblings.any fun s : Siblings => decide (s.blanks ≠ [])) (by decide +kernel)
  obtain ⟨s, hs, hblanks⟩ := List.any_eq_true.1 htest
  obtain ⟨r, hformat, hreadable, hapart⟩ :=
    @read_format_apart ignoring (Profile.valid_of_layout rfl) none _ rfl _ _ hread
  obtain ⟨d', hread'⟩ := hreadable hprolog
  exact ⟨d, r, d', hread, ⟨e, List.mem_of_head? (Document.head?_elements he), s, hs, of_decide_eq_true hblanks⟩,
    hformat, hread', hapart d' hread'⟩

/-! ### Siblings that touch each other -/

/-- Text and references with nothing between them have nothing between them in the result exactly if the whitespace
around them is kept, or both fit on the line. -/
theorem read_format_glued_iff {profile : Profile} (hvalid : profile.Valid) {correlationId : Option String}
    {f : Formatter} (hmake : make profile correlationId [] = .ok f) {t : Text} {d : Document}
    (hread : read t = .ok d) :
    ∃ r page, f.format t = .ok r ∧ profile.page? = some page ∧
      ((∀ p ∈ d.prolog, p.attributes ≠ []) → ∃ d', read r.formatted = .ok d') ∧
      ∀ d', read r.formatted = .ok d' →
        List.Forall₂ (fun e e' : Element => List.Forall₂ (fun s s' : Siblings =>
          s.Match profile.style.sortAttributes s' ∧
            (s.Glued → (s'.blanks = [] ↔ d.KeepsSpace profile.style e ∨ s.Fits page r.formatted.normalize s')))
          e.siblings e'.siblings) d.elements d'.elements := by
  obtain ⟨r, page, hformat, hpage, hreadable, hspaced⟩ := exists_spaced hvalid hmake hread
  refine ⟨r, page, hformat, hpage, hreadable, fun d' hread' => (hspaced d' hread').imp fun e e' he => ?_⟩
  refine he.imp fun s s' hs => ⟨⟨hs.left, hs.right⟩, fun hglued => ?_⟩
  by_cases hkept : d.KeepsSpace profile.style e
  · exact ⟨fun _ => .inl hkept, fun _ => (hs.same hkept).trans hglued.2.2⟩
  · rw [hs.glued hkept hglued, or_iff_right hkept]

theorem read_format_glued_iff_sample :
    ∃ d r d' page, read siblingText = .ok d ∧ ignoring.page? = some page ∧
      (∃ e ∈ d.elements, ∃ s ∈ e.siblings, s.Glued) ∧
      format { profile := ignoring } siblingText = .ok r ∧ read r.formatted = .ok d' ∧
      List.Forall₂ (fun e e' : Element => List.Forall₂ (fun s s' : Siblings =>
        s.Match ignoring.style.sortAttributes s' ∧
          (s.Glued → (s'.blanks = [] ↔ d.KeepsSpace ignoring.style e ∨ s.Fits page r.formatted.normalize s')))
        e.siblings e'.siblings) d.elements d'.elements := by
  obtain ⟨d, e, hread, hprolog, he, -, htest⟩ := @exists_root_of_test siblingText
    (fun e => e.siblings.any fun s => decide s.Glued) (by decide +kernel)
  obtain ⟨s, hs, hglued⟩ := List.any_eq_true.1 htest
  obtain ⟨r, page, hformat, hpage, hreadable, hiff⟩ :=
    @read_format_glued_iff ignoring (Profile.valid_of_layout rfl) none _ rfl _ _ hread
  obtain ⟨d', hread'⟩ := hreadable hprolog
  exact ⟨d, r, d', page, hread, hpage,
    ⟨e, List.mem_of_head? (Document.head?_elements he), s, hs, of_decide_eq_true hglued⟩, hformat, hread',
    hiff d' hread'⟩

/-- A text of two lines does not stay with the reference behind it, though all would fit on a line. -/
theorem read_format_unglued :
    ∃ f d r d', ignoring.Valid ∧ make ignoring none [] = .ok f ∧ read "<a>x\ny&amp;z<b/></a>".toList = .ok d ∧
      f.format "<a>x\ny&amp;z<b/></a>".toList = .ok r ∧
      r.formatted = "<a>\n  x\ny\n  &amp;z\n  <b />\n</a>\n".toList ∧ read r.formatted = .ok d' ∧
      ¬List.Forall₂ (fun e e' : Element => List.Forall₂ (fun s s' : Siblings => s.Glued → s'.blanks = [])
        e.siblings e'.siblings) d.elements d'.elements := by
  obtain ⟨r, hformat, hformatted⟩ := exists_format_plainRoot wellFormedAll_samples.1
    (t := "<a>x\ny&amp;z<b/></a>".toList) (by decide +kernel)
  have houtput : r.formatted = "<a>\n  x\ny\n  &amp;z\n  <b />\n</a>\n".toList := by
    rw [hformatted]
    decide +kernel
  obtain ⟨d, e, hread, -, he, -, htest⟩ := @exists_root_of_test "<a>x\ny&amp;z<b/></a>".toList
    (fun e => e.siblings.head?.any fun s : Siblings => decide s.Glued) (by decide +kernel)
  obtain ⟨d', e', hread', -, he', -, htest'⟩ := @exists_root_of_test "<a>\n  x\ny\n  &amp;z\n  <b />\n</a>\n".toList
    (fun e => e.siblings.head?.any fun s : Siblings => decide (s.blanks ≠ [])) (by decide +kernel)
  refine ⟨_, d, r, d', Profile.valid_of_layout rfl, rfl, hread, hformat, houtput, houtput ▸ hread', fun h => ?_⟩
  obtain ⟨s, hs, hglued⟩ := (Option.any_eq_true _ _).1 htest
  obtain ⟨s', hs', hapart⟩ := (Option.any_eq_true _ _).1 htest'
  have hroot := rel_of_head? h (Document.head?_elements he) (Document.head?_elements he')
  exact of_decide_eq_true hapart (rel_of_head? hroot hs hs' (of_decide_eq_true hglued))

/-! ### Blank lines -/

/-- Where whitespace is not kept, the result has one blank line between siblings if there was one or more, but none
behind a text. -/
theorem read_format_blankLines {profile : Profile} (hvalid : profile.Valid) {correlationId : Option String}
    {f : Formatter} (hmake : make profile correlationId [] = .ok f) {t : Text} {d : Document}
    (hread : read t = .ok d) :
    ∃ r, f.format t = .ok r ∧
      ((∀ p ∈ d.prolog, p.attributes ≠ []) → ∃ d', read r.formatted = .ok d') ∧
      ∀ d', read r.formatted = .ok d' →
        List.Forall₂ (fun e e' : Element => ¬d.KeepsSpace profile.style e → List.Forall₂ (fun s s' : Siblings =>
          s.Match profile.style.sortAttributes s' ∧
            s'.blanks.blankLines = if s.left.isText then 0 else min 1 s.blanks.blankLines)
          e.siblings e'.siblings) d.elements d'.elements := by
  obtain ⟨r, page, hformat, -, hreadable, hspaced⟩ := exists_spaced hvalid hmake hread
  refine ⟨r, hformat, hreadable, fun d' hread' => (hspaced d' hread').imp fun e e' he hkept => ?_⟩
  exact he.imp fun s s' hs => ⟨⟨hs.left, hs.right⟩, hs.lines hkept⟩

theorem read_format_blankLines_sample :
    ∃ d r d', read siblingText = .ok d ∧
      (∃ e ∈ d.elements, ¬d.KeepsSpace ignoring.style e ∧
        ∃ s ∈ e.siblings, s.left.isText = false ∧ 1 < s.blanks.blankLines) ∧
      format { profile := ignoring } siblingText = .ok r ∧ read r.formatted = .ok d' ∧
      List.Forall₂ (fun e e' : Element => ¬d.KeepsSpace ignoring.style e → List.Forall₂ (fun s s' : Siblings =>
        s.Match ignoring.style.sortAttributes s' ∧
          s'.blanks.blankLines = if s.left.isText then 0 else min 1 s.blanks.blankLines)
        e.siblings e'.siblings) d.elements d'.elements := by
  obtain ⟨d, e, hread, hprolog, he, hkept, htest⟩ := @exists_root_of_test siblingText
    (fun e => e.siblings.any fun s : Siblings => decide (s.left.isText = false ∧ 1 < s.blanks.blankLines))
    (by decide +kernel)
  obtain ⟨s, hs, hlines⟩ := List.any_eq_true.1 htest
  obtain ⟨r, hformat, hreadable, hcollapsed⟩ :=
    @read_format_blankLines ignoring (Profile.valid_of_layout rfl) none _ rfl _ _ hread
  obtain ⟨d', hread'⟩ := hreadable hprolog
  exact ⟨d, r, d', hread,
    ⟨e, List.mem_of_head? (Document.head?_elements he), hkept, s, hs, of_decide_eq_true hlines⟩, hformat, hread',
    hcollapsed d' hread'⟩

/-- The blank line behind a text is lost. -/
theorem read_format_blankLine_lost :
    ∃ f d r d', ignoring.Valid ∧ make ignoring none [] = .ok f ∧ read "<a>text\n\n<b/></a>".toList = .ok d ∧
      f.format "<a>text\n\n<b/></a>".toList = .ok r ∧
      r.formatted = "<a>\n  text\n  <b />\n</a>\n".toList ∧ read r.formatted = .ok d' ∧
      ¬List.Forall₂ (fun e e' : Element => ¬d.KeepsSpace ignoring.style e → List.Forall₂ (fun s s' : Siblings =>
        s'.blanks.blankLines = min 1 s.blanks.blankLines) e.siblings e'.siblings) d.elements d'.elements := by
  obtain ⟨r, hformat, hformatted⟩ := exists_format_plainRoot wellFormedAll_samples.2
    (t := "<a>text\n\n<b/></a>".toList) (by decide +kernel)
  have houtput : r.formatted = "<a>\n  text\n  <b />\n</a>\n".toList := by
    rw [hformatted]
    decide +kernel
  obtain ⟨d, e, hread, -, he, hkept, htest⟩ := @exists_root_of_test "<a>text\n\n<b/></a>".toList
    (fun e => e.siblings.head?.any fun s : Siblings => decide (s.blanks.blankLines = 1)) (by decide +kernel)
  obtain ⟨d', e', hread', -, he', -, htest'⟩ := @exists_root_of_test "<a>\n  text\n  <b />\n</a>\n".toList
    (fun e => e.siblings.head?.any fun s : Siblings => decide (s.blanks.blankLines = 0)) (by decide +kernel)
  refine ⟨_, d, r, d', Profile.valid_of_layout rfl, rfl, hread, hformat, houtput, houtput ▸ hread', fun h => ?_⟩
  obtain ⟨s, hs, hone⟩ := (Option.any_eq_true _ _).1 htest
  obtain ⟨s', hs', hnone⟩ := (Option.any_eq_true _ _).1 htest'
  have hroot := rel_of_head? h (Document.head?_elements he) (Document.head?_elements he') hkept
  have hlines := rel_of_head? hroot hs hs'
  rw [of_decide_eq_true hone, of_decide_eq_true hnone] at hlines
  cases hlines

end Formatter

end XmlTidy
