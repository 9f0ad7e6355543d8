import XmlTidy.Proofs.Stages

/-!
Printing a layout document only decides about whitespace. Whatever the page, a document without stray values is
printed, and apart from blanks the result is the texts of the document, one behind the other and each exactly
once. The branches of an `ifBreak` have to agree up to blanks, since either may be printed.
-/

namespace XmlTidy

/-- A text without its blanks. -/
def Text.ink (t : Text) : Text := t.filter (! isBlank ·)

namespace Text

theorem ink_append (s t : Text) : (s ++ t).ink = s.ink ++ t.ink := List.filter_append ..

theorem ink_reverse (t : Text) : ink t.reverse = t.ink.reverse := List.filter_reverse ..

theorem ink_of_blanks {t : Text} (h : ∀ c ∈ t, isBlank c = true) : t.ink = [] := by
  rw [ink, List.filter_eq_nil_iff]
  intro c hc
  simp [h c hc]

theorem ink_cons_of_blank {c : Char} (hc : isBlank c = true) (t : Text) : ink (c :: t) = t.ink := by
  simp [ink, hc]

theorem ink_dropWhile_isPadding (t : Text) : ink (t.dropWhile isPadding) = t.ink := by
  have hpadding : ink (t.takeWhile isPadding) = [] := by
    refine ink_of_blanks fun c hc => ?_
    have := List.all_eq_true.1 List.all_takeWhile c hc
    simp only [isPadding, Bool.or_eq_true, beq_iff_eq] at this
    rcases this with rfl | rfl <;> rfl
  calc ink (t.dropWhile isPadding) = ink (t.takeWhile isPadding) ++ ink (t.dropWhile isPadding) := by
        rw [hpadding, List.nil_append]
    _ = t.ink := by rw [← ink_append, List.takeWhile_append_dropWhile]

theorem ink_blanks (useTabs : Bool) (tabWidth depth : Nat) : ink (blanks useTabs tabWidth depth) = [] := by
  refine ink_of_blanks fun c hc => ?_
  simp only [blanks] at hc
  split at hc <;> rw [List.eq_of_mem_replicate hc] <;> rfl

theorem ink_withLineEnds (t : Text) (lineEnd : LineEnd) : ink (t.withLineEnds lineEnd.image) = t.ink := by
  induction t with
  | nil => rfl
  | cons c t ih =>
      rw [withLineEnds] at ih ⊢
      rw [List.flatMap_cons, ink_append, ih]
      by_cases hc : c = '\n'
      · rw [if_pos hc, hc, ink_cons_of_blank rfl, ink_of_blanks]
        · rfl
        · cases lineEnd <;> simp [LineEnd.image, isBlank]
      · rw [if_neg hc, ← ink_append, List.singleton_append]

end Text

namespace Doc

open Text

mutual
/-- The texts of a document, one behind the other; of the branches of an `ifBreak`, those of the first. -/
def content : Doc → Text
  | .text t => t
  | .concat parts | .fill parts => contentAll parts
  | .group contents _ | .indent contents => content contents
  | .ifBreak broken _ => content broken
  | .line _ | .breakParent | .stray _ => []

def contentAll : List Doc → Text
  | [] => []
  | doc :: docs => content doc ++ contentAll docs
end

theorem contentAll_eq (docs : List Doc) : contentAll docs = docs.flatMap content := by
  induction docs with
  | nil => rfl
  | cons doc docs ih => rw [contentAll, ih, List.flatMap_cons]

/-- Documents without stray values, in which the branches of every `ifBreak` agree up to blanks. -/
inductive Balanced : Doc → Prop where
  | text (t : Text) : Balanced (.text t)
  | concat {parts : List Doc} (h : ∀ doc ∈ parts, Balanced doc) : Balanced (.concat parts)
  | fill {parts : List Doc} (h : ∀ doc ∈ parts, Balanced doc) : Balanced (.fill parts)
  | indent {contents : Doc} (h : Balanced contents) : Balanced (.indent contents)
  | group {contents : Doc} (h : Balanced contents) (forced : Bool) : Balanced (.group contents forced)
  | ifBreak {broken flat : Doc} (hbroken : Balanced broken) (hflat : Balanced flat)
      (h : broken.content.ink = flat.content.ink) : Balanced (.ifBreak broken flat)
  | line (l : Line) : Balanced (.line l)
  | breakParent : Balanced .breakParent

@[simp] theorem balanced_text (t : Text) : Balanced (text t) := .text t
@[simp] theorem balanced_line (l : Line) : Balanced (line l) := .line l
@[simp] theorem balanced_breakParent : Balanced breakParent := .breakParent

@[simp] theorem not_balanced_stray (value : Stray) : ¬ Balanced (stray value) := by
  rintro ⟨⟩

@[simp] theorem balanced_concat {parts : List Doc} : Balanced (concat parts) ↔ ∀ doc ∈ parts, Balanced doc := by
  refine ⟨fun h => ?_, .concat⟩
  cases h with
  | concat h => exact h

@[simp] theorem balanced_fill {parts : List Doc} : Balanced (fill parts) ↔ ∀ doc ∈ parts, Balanced doc := by
  refine ⟨fun h => ?_, .fill⟩
  cases h with
  | fill h => exact h

@[simp] theorem balanced_indent {contents : Doc} : Balanced (indent contents) ↔ Balanced contents := by
  refine ⟨fun h => ?_, .indent⟩
  cases h with
  | indent h => exact h

@[simp] theorem balanced_group {contents : Doc} {forced : Bool} :
    Balanced (group contents forced) ↔ Balanced contents := by
  refine ⟨fun h => ?_, fun h => .group h forced⟩
  cases h with
  | group h _ => exact h

/-- Balanced documents hold no stray value. -/
theorem Balanced.isValid {doc : Doc} (h : doc.Balanced) : doc.isValid = true := by
  induction h with
  | text | line | breakParent => rfl
  | concat _ ih => rwa [isValid_concat]
  | fill _ ih => rwa [isValid_fill]
  | indent _ ih => rwa [isValid_indent]
  | group _ _ ih => rwa [isValid_group]
  | ifBreak _ _ _ ihbroken ihflat => rw [isValid_ifBreak, ihbroken, ihflat]; rfl

/-- Marking the groups that have to break keeps the texts. -/
theorem Balanced.settled {doc : Doc} (h : doc.Balanced) :
    doc.settled.Balanced ∧ doc.settled.content = doc.content := by
  have hparts : ∀ {parts : List Doc}, (∀ doc ∈ parts, doc.settled.Balanced ∧ doc.settled.content = doc.content) →
      (∀ doc ∈ parts.map Doc.settled, doc.Balanced) ∧ contentAll (parts.map Doc.settled) = contentAll parts := by
    intro parts ih
    refine ⟨fun doc hdoc => ?_, ?_⟩
    · obtain ⟨part, hpart, rfl⟩ := List.mem_map.1 hdoc
      exact (ih part hpart).1
    · rw [contentAll_eq, contentAll_eq, List.flatMap_def, List.flatMap_def, List.map_map]
      exact congrArg List.flatten (List.map_congr_left fun part hpart => (ih part hpart).2)
  induction h with
  | text t => exact ⟨.text t, rfl⟩
  | concat _ ih =>
      rw [settled_concat, content, content]
      exact ⟨.concat (hparts ih).1, (hparts ih).2⟩
  | fill _ ih =>
      rw [settled_fill, content, content]
      exact ⟨.fill (hparts ih).1, (hparts ih).2⟩
  | indent _ ih => exact ⟨.indent ih.1, ih.2⟩
  | group _ forced ih => exact ⟨.group ih.1 _, ih.2⟩
  | ifBreak _ _ h ihbroken ihflat =>
      rw [settled_ifBreak, content, content]
      exact ⟨.ifBreak ihbroken.1 ihflat.1 (by rw [ihbroken.2, ihflat.2, h]), ihbroken.2⟩
  | line l => exact ⟨.line l, rfl⟩
  | breakParent => exact ⟨.breakParent, rfl⟩

/-- Either branch of an `ifBreak` shows the same ink. -/
theorem Balanced.choose {broken flat : Doc} (h : Balanced (.ifBreak broken flat)) (mode : Mode) :
    (mode.choose broken flat).Balanced ∧
      (mode.choose broken flat).content.ink = (Doc.ifBreak broken flat).content.ink := by
  cases h with
  | ifBreak hbroken hflat h =>
      cases mode with
      | broken => exact ⟨hbroken, rfl⟩
      | flat => exact ⟨hflat, h.symm⟩

/-- A branch that is passed over holds nothing. -/
theorem Balanced.content_of_isVoid {doc : Doc} (h : doc.Balanced) (hvoid : doc.isVoid = true) : doc.content = [] := by
  cases h with
  | text t => simpa [isVoid, content] using hvoid
  | concat =>
      simp only [isVoid, List.isEmpty_iff] at hvoid
      rw [hvoid]
      rfl
  | _ => simp [isVoid] at hvoid

end Doc

/-! ### Stacks -/

namespace Command

/-- Stacks of documents that can be printed. -/
def Balanced (stack : List Command) : Prop := ∀ c ∈ stack, c.doc.Balanced

/-- The texts of a stack. -/
def content (stack : List Command) : Text := stack.flatMap fun c => c.doc.content

theorem Balanced.valid {stack : List Command} (h : Balanced stack) : Valid stack := fun c hc => (h c hc).isValid

theorem balanced_cons {c : Command} {stack : List Command} :
    Balanced (c :: stack) ↔ c.doc.Balanced ∧ Balanced stack := List.forall_mem_cons

theorem balanced_append {s t : List Command} : Balanced (s ++ t) ↔ Balanced s ∧ Balanced t :=
  List.forall_mem_append

theorem balanced_push {parts : List Doc} {stack : List Command} (depth : Nat) (mode : Mode) :
    Balanced (push depth mode parts stack) ↔ (∀ doc ∈ parts, doc.Balanced) ∧ Balanced stack := by
  rw [push, balanced_append, Balanced, List.forall_mem_map]

theorem content_cons (c : Command) (stack : List Command) : content (c :: stack) = c.doc.content ++ content stack :=
  rfl

theorem content_append (s t : List Command) : content (s ++ t) = content s ++ content t := List.flatMap_append ..

theorem content_push (depth : Nat) (mode : Mode) (parts : List Doc) (stack : List Command) :
    content (push depth mode parts stack) = Doc.contentAll parts ++ content stack := by
  rw [push, content_append, Doc.contentAll_eq, content, List.flatMap_map]

end Command

open Command Text

theorem contentAll_fillDocs (parts : List Doc) : Doc.contentAll (fillDocs parts) = Doc.contentAll parts := by
  unfold fillDocs
  split
  · simp [Doc.contentAll, Doc.content]
  · rfl

/-- The front of a fill holds all of its parts. -/
theorem fillFront_ok (remaining : Int) (depth : Nat) (mode : Mode) {parts : List Doc}
    (h : ∀ doc ∈ parts, doc.Balanced) :
    ∃ front, fillFront remaining depth mode parts = .ok front ∧ Command.Balanced front ∧
      Command.content front = Doc.contentAll parts := by
  obtain ⟨front, hfront, hdocs⟩ := exists_fillFront remaining depth mode fun doc hdoc => (h doc hdoc).isValid
  refine ⟨front, hfront, forall_mem_front .fill hdocs h, ?_⟩
  rw [← contentAll_fillDocs, ← hdocs, Doc.contentAll_eq, List.flatMap_map, content]

/-! ### Printing -/

namespace Printed

theorem ink_write (p : Printed Text Int) (t : Text) : (p.write t).text.ink = p.text.ink ++ t.ink := by
  rw [text, write_text, List.reverse_append, List.reverse_reverse, ink_append]
  rfl

theorem ink_writeFlatLine (p : Printed Text Int) (l : Line) : (p.writeFlatLine l).text.ink = p.text.ink := by
  rw [writeFlatLine_text]
  split
  · rfl
  · rw [text, List.reverse_cons, ink_append]
    simp [ink, isBlank, text]

/-- A line break adds blanks and takes blanks away. -/
theorem ink_breakLine (page : Page) (depth : Nat) (mode : Mode) (l : Line) (p : Printed Text Int) :
    (p.breakLine page.ruler depth mode l).text.ink = p.text.ink := by
  simp only [breakLine_text]
  split
  · rw [text, text, ink_reverse, ink_cons_of_blank rfl, ink_reverse]
  · have hindentation : ink (page.ruler.indentation depth).reverse = [] := by
      rw [ink_reverse, show page.ruler.indentation depth = blanks page.useTabs page.tabWidth depth from rfl,
        ink_blanks, List.reverse_nil]
    rw [text, text, ink_reverse, ink_append, hindentation, List.nil_append, ink_cons_of_blank rfl,
      ink_dropWhile_isPadding, ink_reverse]

end Printed

/-- Results that are printed and show some ink. -/
def Shows (result : Except RenderFault (Printed Text Int)) (ink : Text) : Prop :=
  ∃ q, result = .ok q ∧ q.text.ink = ink

/-- Printing a stack adds its texts to what has been printed, and otherwise only blanks. -/
theorem shows_printStack (page : Page) (p : Printed Text Int) {stack : List Command} (h : Command.Balanced stack) :
    Shows (printStack page.ruler p stack) (p.text.ink ++ (Command.content stack).ink) := by
  -- the induction follows the stack; every step keeps the ink printed so far and that still to come
  fun_induction printStack page.ruler p stack with
  | case1 p => exact ⟨p, rfl, (List.append_nil _).symm⟩
  | case2 p _ _ rest t ih =>
      have hrest := ih (balanced_cons.1 h).2
      rwa [Printed.ink_write, List.append_assoc, ← ink_append] at hrest
  | case3 p depth mode rest parts ih =>
      obtain ⟨hparts, hrest⟩ := balanced_cons.1 h
      have hpush := ih ((balanced_push ..).2 ⟨Doc.balanced_concat.1 hparts, hrest⟩)
      rwa [content_push] at hpush
  | case4 p depth mode rest contents ih =>
      obtain ⟨hcontents, hrest⟩ := balanced_cons.1 h
      exact ih (balanced_cons.2 ⟨Doc.balanced_indent.1 hcontents, hrest⟩)
  | case5 p depth mode rest contents forced _ ih | case9 p depth mode rest contents forced _ _ _ _ _ _ _ ih =>
      obtain ⟨hcontents, hrest⟩ := balanced_cons.1 h
      exact ih (balanced_cons.2 ⟨Doc.balanced_group.1 hcontents, hrest⟩)
  | case6 p depth mode rest contents _ _ ih =>
      obtain ⟨hcontents, hrest⟩ := balanced_cons.1 h
      exact ih (balanced_cons.2 ⟨Doc.balanced_group.1 hcontents, hrest⟩)
  | case7 _ _ _ _ _ _ _ _ _ hleft | case10 _ _ _ _ _ hleft => cases hleft
  | case8 _ depth _ rest contents _ _ _ _ width _ e hfits =>
      obtain ⟨hcontents, hrest⟩ := balanced_cons.1 h
      obtain ⟨measured, hok⟩ := @exists_fits false width (⟨depth, .flat, contents⟩ :: rest)
        (valid_cons.2 ⟨(Doc.balanced_group.1 hcontents).isValid, hrest.valid⟩)
      rw [hok] at hfits
      cases hfits
  | case11 _ depth mode _ parts width _ e hfront =>
      obtain ⟨front, hok, -⟩ := fillFront_ok width depth mode (Doc.balanced_fill.1 (balanced_cons.1 h).1)
      rw [hok] at hfront
      cases hfront
  | case12 p depth mode rest parts width _ front hfront ih =>
      obtain ⟨hparts, hrest⟩ := balanced_cons.1 h
      obtain ⟨front', hok, hbalanced, hcontent⟩ := fillFront_ok width depth mode (Doc.balanced_fill.1 hparts)
      obtain rfl : front' = front := Except.ok.inj (hok.symm.trans hfront)
      have hfill := ih (balanced_append.2 ⟨hbalanced, hrest⟩)
      rwa [content_append, hcontent] at hfill
  | case13 p depth mode rest broken flat chosen hvoid ih =>
      obtain ⟨hbranches, hrest⟩ := balanced_cons.1 h
      obtain ⟨hchosen, hink⟩ := hbranches.choose mode
      rw [content_cons, ink_append, ← hink, hchosen.content_of_isVoid hvoid]
      exact ih hrest
  | case14 p depth mode rest broken flat chosen _ ih =>
      obtain ⟨hbranches, hrest⟩ := balanced_cons.1 h
      obtain ⟨hchosen, hink⟩ := hbranches.choose mode
      rw [content_cons, ink_append, ← hink, ← ink_append]
      exact ih (balanced_cons.2 ⟨hchosen, hrest⟩)
  | case15 p _ _ rest l _ ih =>
      have hrest := ih (balanced_cons.1 h).2
      rwa [Printed.ink_writeFlatLine] at hrest
  | case16 p depth mode rest l _ ih =>
      have hrest := ih (balanced_cons.1 h).2
      rwa [Printed.ink_breakLine] at hrest
  | case17 p _ _ rest ih => exact ih (balanced_cons.1 h).2
  | case18 _ _ _ _ value => exact absurd (balanced_cons.1 h).1 (Doc.not_balanced_stray value)

/-- Every page prints a document without stray values, and what it prints is the texts of the document, apart from
blanks; so any two pages print the same, apart from blanks. -/
theorem Page.render_ink {doc : Doc} (h : doc.Balanced) (page : Page) :
    ∃ t, page.render doc = .ok t ∧ t.ink = doc.content.ink ∧
      ∀ page' : Page, ∃ t', page'.render doc = .ok t' ∧ t'.ink = t.ink := by
  have hrender : ∀ page : Page, ∃ t, page.render doc = .ok t ∧ t.ink = doc.content.ink := by
    intro page
    obtain ⟨hsettled, hcontent⟩ := h.settled
    obtain ⟨q, hq, hink⟩ := @shows_printStack page .empty [⟨0, .broken, doc.settled⟩]
      (balanced_cons.2 ⟨hsettled, by simp [Command.Balanced]⟩)
    refine ⟨q.text.withLineEnds page.lineEnd.image, ?_, ?_⟩
    · rw [Page.render, Ruler.print_eq, hq]
      rfl
    · rw [ink_withLineEnds, hink, content_cons, hcontent]
      simp [Printed.empty_text, Printed.text, Command.content, ink]
  obtain ⟨t, ht, hink⟩ := hrender page
  refine ⟨t, ht, hink, fun page' => ?_⟩
  rw [hink]
  exact hrender page'

/-- A group with a fill, and a comma that stands before a blank or a newline. -/
def Doc.listing : Doc :=
  .group (.concat [.indent (.concat [.softLine, .text ['a', ' ']]),
    .ifBreak (.text [',', '\n']) (.concat [.text [','], .spaceLine]),
    .fill [.text ['b'], .spaceLine, .text ['c']]]) false

/-- The listing is printed alike on every page, apart from blanks. -/
theorem Page.render_ink_listing : Doc.listing.Balanced ∧ Doc.listing.content.ink = ['a', ',', 'b', 'c'] ∧
    ∃ t, Page.render { width := 1 } .listing = .ok t ∧ t.ink = Doc.listing.content.ink ∧
      ∀ page' : Page, ∃ t', page'.render .listing = .ok t' ∧ t'.ink = t.ink := by
  have hbalanced : Doc.listing.Balanced := by
    refine .group (.concat ?_) false
    simp only [List.mem_cons, List.not_mem_nil, or_false, forall_eq_or_imp, forall_eq]
    exact ⟨by simp [Doc.softLine], .ifBreak (.text _) (by simp [Doc.spaceLine]) rfl, by simp [Doc.spaceLine]⟩
  exact ⟨hbalanced, rfl, render_ink hbalanced { width := 1 }⟩

end XmlTidy
