import XmlTidy.Proofs.Formattable
import XmlTidy.Proofs.Lossless

/-!
The end of a formatted text. A document that closes with a text closes with it in whatever way it is laid out: while
printing goes on, either the last command left closes with that text, or the text has been printed last. Every
node at the top level closes with a bracket, embedded formatters or not, and behind the last node there is one
hard line. Hence a formatted text ends in a bracket and one line end, and that of a document without nodes is
a line end.
-/

namespace XmlTidy

/-! ### Documents that close with a character -/

/-- Documents that print a text last which has a given last character. -/
inductive Doc.ClosesWith (c : Char) : Doc → Prop where
  | text {t : Text} (h : t.getLast? = some c) : ClosesWith c (.text t)
  | concat (parts : List Doc) {last : Doc} (h : ClosesWith c last) : ClosesWith c (.concat (parts ++ [last]))
  | indent {contents : Doc} (h : ClosesWith c contents) : ClosesWith c (.indent contents)
  | group {contents : Doc} (forced : Bool) (h : ClosesWith c contents) : ClosesWith c (.group contents forced)

namespace Doc.ClosesWith

variable {c : Char}

/-- Marking the groups that have to break changes no text. -/
theorem settled {doc : Doc} (h : doc.ClosesWith c) : doc.settled.ClosesWith c := by
  induction h with
  | text h =>
      rw [settled_text]
      exact .text h
  | concat parts _ ih =>
      rw [settled_concat, List.map_append]
      exact .concat _ ih
  | indent _ ih =>
      rw [settled_indent]
      exact .indent ih
  | group forced _ ih =>
      rw [settled_group]
      exact .group _ ih

theorem grouped {parts : List Doc} {last : Doc} (h : last.ClosesWith c) :
    (Doc.grouped (.concat (parts ++ [last]))).ClosesWith c :=
  .group false (.concat parts h)

/-- Documents with separators between them close as the last one does. -/
theorem join (separator : Doc) (docs : List Doc) {last : Doc} (h : last.ClosesWith c) :
    (Doc.concat (Doc.join separator (docs ++ [last]))).ClosesWith c := by
  have hjoin : ∃ parts, Doc.join separator (docs ++ [last]) = parts ++ [last] := by
    induction docs with
    | nil => exact ⟨[], rfl⟩
    | cons doc docs ih =>
        obtain ⟨parts, hparts⟩ := ih
        refine ⟨doc :: separator :: parts, ?_⟩
        rw [List.cons_append, List.cons_append, List.cons_append, ← hparts]
        cases docs <;> rfl
  obtain ⟨parts, hparts⟩ := hjoin
  rw [hparts]
  exact .concat parts h

end Doc.ClosesWith

/-! ### The last character that is printed -/

namespace Stage

open Command

variable {page : Page} {c : Char}

/-- How printing stands with some commands: either they are left and the last of them closes with a character, or
they are done and the character has been printed last. -/
def Closing (c : Char) (p : Printed Text Int) (commands : List Command) : Prop :=
  match commands.getLast? with
  | some last => last.doc.ClosesWith c
  | none => p.reversed.head? = some c

theorem closing_concat {p : Printed Text Int} (before : List Command) {last : Command} (h : last.doc.ClosesWith c) :
    Closing c p (before ++ [last]) := by
  rwa [Closing, List.getLast?_concat]

/-- What the last command makes way for closes with the character, or it is the text that does. -/
theorem Step.closing_last {p : Printed Text Int} {last : Command} {tail : List Command} {s' : Stage}
    (h : Step page ⟨p, last :: tail⟩ s') (hlast : last.doc.ClosesWith c) :
    ∃ front, s'.stack = front ++ tail ∧ Closing c s'.printed front := by
  obtain ⟨depth, mode, doc⟩ := last
  obtain ⟨new, hstack, hopens⟩ := h.opens
  refine ⟨new, hstack, ?_⟩
  cases hlast with
  | @text t ht =>
      cases h
      cases hopens
      show (t.reverse ++ p.reversed).head? = some c
      rw [List.head?_append, List.head?_reverse, ht]
      rfl
  | concat parts hlast =>
      cases hopens
      rw [List.map_append]
      exact closing_concat _ hlast
  | indent hcontents =>
      cases hopens
      exact hcontents
  | group forced hcontents =>
      cases hopens
      exact hcontents

/-- A step among the commands keeps what they close with. -/
theorem Step.closing {p : Printed Text Int} {first : Command} {front tail : List Command} {s' : Stage}
    (h : Step page ⟨p, first :: (front ++ tail)⟩ s') (hclosing : Closing c p (first :: front)) :
    ∃ front', s'.stack = front' ++ tail ∧ Closing c s'.printed front' := by
  cases front with
  | nil => exact h.closing_last hclosing
  | cons second front =>
      -- the last command is further back, so it stays as it is
      obtain ⟨new, hstack, -⟩ := h.opens
      refine ⟨new ++ second :: front, by rw [hstack, List.append_assoc], ?_⟩
      rw [Closing, List.getLast?_cons_cons] at hclosing
      rwa [Closing, List.getLast?_append_of_ne_nil _ (by simp)]

/-- Printing comes to where the commands are done, and there the character has been printed last. -/
theorem Runs.closing {s : Stage} {q : Printed Text Int} (h : Runs page s ⟨q, []⟩) {front tail : List Command}
    (hstack : s.stack = front ++ tail) (hclosing : Closing c s.printed front) :
    ∃ p : Printed Text Int, p.reversed.head? = some c ∧ Runs page ⟨p, tail⟩ ⟨q, []⟩ := by
  induction h using Relation.ReflTransGen.head_induction_on generalizing front with
  | refl =>
      obtain ⟨rfl, rfl⟩ := List.append_eq_nil_iff.1 hstack.symm
      exact ⟨q, hclosing, .refl⟩
  | @head s s' hstep hruns ih =>
      obtain ⟨p, stack⟩ := s
      cases front with
      | nil =>
          obtain rfl : stack = tail := hstack
          exact ⟨p, hclosing, .head hstep hruns⟩
      | cons first front =>
          obtain rfl : stack = first :: (front ++ tail) := hstack
          obtain ⟨front', hstack', hclosing'⟩ := hstep.closing hclosing
          exact ih hstack' hclosing'

/-- A hard line at the top ends the line, and nothing comes behind it. -/
theorem text_of_runs_hardLine {p q : Printed Text Int} (hp : p.Solid)
    (h : Runs page ⟨p, [⟨0, .broken, .hardLine⟩]⟩ ⟨q, []⟩) : q.text = p.text ++ ['\n'] := by
  have hconcat : Step page ⟨p, [⟨0, .broken, .hardLine⟩]⟩
      ⟨p, [⟨0, .broken, .line ⟨true, false, false⟩⟩, ⟨0, .broken, .breakParent⟩]⟩ := rfl
  have hline : Step page ⟨p, [⟨0, .broken, .line ⟨true, false, false⟩⟩, ⟨0, .broken, .breakParent⟩]⟩
      ⟨p.newLine page 0, [⟨0, .broken, .breakParent⟩]⟩ := by
    rw [← Printed.breakLine_of_solid hp page 0 true false]
    rfl
  have hparent : Step page ⟨p.newLine page 0, [⟨0, .broken, .breakParent⟩]⟩ ⟨p.newLine page 0, []⟩ := rfl
  have hend : Runs page ⟨p, [⟨0, .broken, .hardLine⟩]⟩ ⟨p.newLine page 0, []⟩ :=
    .head hconcat (.head hline (.single hparent))
  have hsame : printStack page.ruler q [] = printStack page.ruler (p.newLine page 0) [] :=
    (printStack_of_runs h).symm.trans (printStack_of_runs hend)
  rw [printStack, printStack, Except.ok.injEq] at hsame
  rw [hsame, Printed.newLine, Printed.text, Printed.text]
  simp [Printed.indentation_zero]

/-- Lines that close with a bracket are printed as a text that does, and a newline. If there are none, there is only
the newline. -/
theorem exists_runs_lines (page : Page) {docs : List Doc} (hvalid : Doc.AllValid docs)
    (hcloses : ∀ doc ∈ docs, doc.ClosesWith '>') :
    ∃ q body, Runs page (start (.concat [.concat (Doc.join .hardLine docs), .hardLine])) ⟨q, []⟩ ∧
      q.text = body ++ ['\n'] ∧ (docs = [] ∧ body = [] ∨ docs ≠ [] ∧ body.getLast? = some '>') := by
  have hjoin : (Doc.concat (Doc.join .hardLine docs)).isValid = true := Doc.isValid_join rfl hvalid
  have hstack : Valid [⟨0, .broken, (Doc.concat (Doc.join .hardLine docs)).settled⟩, ⟨0, .broken, .hardLine⟩] :=
    valid_cons.2 ⟨Doc.isValid_settled hjoin, valid_cons.2 ⟨rfl, by simp [Valid]⟩⟩
  obtain ⟨q, hruns⟩ := @exists_runs page
    ⟨.empty, [⟨0, .broken, (Doc.concat (Doc.join .hardLine docs)).settled⟩, ⟨0, .broken, .hardLine⟩]⟩ hstack
  have hstart : Runs page (start (.concat [.concat (Doc.join .hardLine docs), .hardLine])) ⟨q, []⟩ := by
    refine .head ?_ hruns
    rw [start, Doc.settled_concat]
    rfl
  cases docs using List.reverseRecOn with
  | nil =>
      have hempty : Step page ⟨.empty, [⟨0, .broken, .concat []⟩, ⟨0, .broken, .hardLine⟩]⟩
          ⟨.empty, [⟨0, .broken, .hardLine⟩]⟩ := rfl
      rcases hruns.cases_head with h | ⟨s, hstep, htail⟩
      · cases h
      · obtain rfl := rightUnique_step page hstep hempty
        exact ⟨q, [], hstart, text_of_runs_hardLine Printed.solid_empty htail, .inl ⟨rfl, rfl⟩⟩
  | append_singleton before last =>
      have hlast : last.ClosesWith '>' := hcloses last (by simp)
      obtain ⟨p, hhead, htail⟩ := @Runs.closing page '>' _ q hruns
        [⟨0, .broken, (Doc.concat (Doc.join .hardLine (before ++ [last]))).settled⟩] [⟨0, .broken, .hardLine⟩] rfl
        (closing_concat [] (Doc.ClosesWith.join .hardLine before hlast).settled)
      have hsolid : p.Solid := by
        intro c hc
        rw [hhead] at hc
        cases hc
        rfl
      refine ⟨q, p.text, hstart, text_of_runs_hardLine hsolid htail, .inr ⟨by simp, ?_⟩⟩
      rw [Printed.text, List.getLast?_reverse, hhead]

end Stage

/-! ### Layouts that close with a bracket -/

open Doc

namespace Tag

theorem closesWith_selfClosed (style : Style) (tag : Tag) : (tag.selfClosed style).ClosesWith '>' := by
  have hslash : (Doc.text ['/', '>']).ClosesWith '>' := .text rfl
  have hparts := @ClosesWith.grouped '>' (tag.head style ++ [slashSpace style]) _ hslash
  rwa [List.append_assoc] at hparts

theorem closesWith_closed {tag : Tag} (h : tag.endName.isSome = true) : tag.closed.ClosesWith '>' := by
  obtain ⟨name, hname⟩ := Option.isSome_iff_exists.1 h
  rw [closed, hname]
  exact @ClosesWith.grouped '>' [.text ['<', '/'], .text name] _ (.text rfl)

end Tag

namespace Job

variable (job : Job) {tag : Tag} (hclosed : tag.endName.isSome = true)
include hclosed

/-- What ends with the end tag closes with a bracket. -/
theorem closesWith_of_closed (parts : List Doc) :
    (Doc.grouped (.concat (parts ++ [tag.closed]))).ClosesWith '>' :=
  .grouped (Tag.closesWith_closed hclosed)

theorem closesWith_reflowedLayout (content : Content) (elements : List Fragment) :
    (job.reflowedLayout tag content elements).ClosesWith '>' := by
  rw [reflowedLayout]
  split
  · exact closesWith_of_closed hclosed [_, _]
  · split
    · exact tag.closesWith_selfClosed job.style
    · dsimp only
      split
      · exact closesWith_of_closed hclosed [_, _, _]
      · exact closesWith_of_closed hclosed [_, _, _]

/-- However the content of an element is laid out, by an embedded formatter or not, its end tag comes last. -/
theorem closesWith_elementLayout (children : List Node) (elements : List Fragment) :
    (job.elementLayout tag children elements).ClosesWith '>' := by
  rw [elementLayout]
  split
  · exact tag.closesWith_selfClosed job.style
  · split
    · exact closesWith_of_closed hclosed [_, _, _]
    · split
      · exact job.closesWith_reflowedLayout hclosed _ _
      · exact closesWith_of_closed hclosed [_, _]

end Job

theorem Prolog.closesWith_layout (style : Style) (p : Prolog) : (p.layout style).ClosesWith '>' := by
  have hmark : (lit "?>").ClosesWith '>' := .text rfl
  rw [Prolog.layout]
  split
  · exact @ClosesWith.grouped '>' [_, _] _ hmark
  · exact @ClosesWith.grouped '>' [_, _, _] _ hmark

theorem Doctype.closesWith_layout (d : Doctype) : d.layout.ClosesWith '>' := by
  rw [Doctype.layout]
  exact .grouped (.text rfl)

namespace Spelled

theorem Top.closesWith_layout (job : Job) {top : Top} (h : top.WellFormed) (src : Source) (n : Nat) :
    ((top.node src n).layout job).ClosesWith '>' := by
  cases top with
  | misc kind image =>
      have himage : image.getLast? = some '>' := by
        cases kind with
        | comment =>
            obtain ⟨s, rfl⟩ := h.2.suffix
            rw [List.getLast?_append]
            rfl
        | instruction =>
            obtain ⟨s, rfl⟩ := h.2.1.suffix
            rw [List.getLast?_append]
            rfl
      exact .text himage
  | doctype decl => exact Doctype.closesWith_layout _
  | root item =>
      cases item with
      | leaf => exact h.1.elim
      | empty tag =>
          rw [Top.node, TopNode.layout, Item.locate, Node.layout_element]
          exact Tag.closesWith_selfClosed _ _
      | full tag children endTail =>
          rw [Top.node, TopNode.layout, Item.locate, Node.layout_element]
          exact job.closesWith_elementLayout rfl _ _

end Spelled

/-- The layout of a node at the top level of a document that was read closes with a bracket. -/
theorem Document.closesWith_layout {t : Text} {d : Document} (hread : read t = .ok d) (job : Job) {node : TopNode}
    (h : node ∈ d.topNodes) : (node.layout job).ClosesWith '>' := by
  obtain ⟨w, hw, rfl, rfl⟩ := exists_spelling hread
  rcases Spelled.exists_of_mem_topNodes hw h with ⟨p, rfl⟩ | ⟨pre, top, post, htop, -, rfl⟩
  · exact p.closesWith_layout job.style
  · exact top.closesWith_layout job htop _ _

/-! ### Formatted texts -/

namespace Text

/-- What stands behind a byte order mark, if there is one. -/
def withoutMark (t : Text) : Text := if t.hasMark then t.tail else t

/-- A mark that is dropped leaves a bracket at the end where it is. -/
theorem exists_withoutMark_append {body : Text} (h : body.getLast? = some '>') (image : Text) :
    ∃ body' : Text, withoutMark (body ++ image) = body' ++ image ∧ body'.getLast? = some '>' := by
  rw [withoutMark]
  split
  · next hmark =>
      cases body with
      | nil => cases h
      | cons c body =>
          -- the mark is no bracket, so something is left behind it
          cases body with
          | nil =>
              cases h
              cases hmark
          | cons c' body => exact ⟨c' :: body, rfl, h⟩
  · exact ⟨body, rfl, h⟩

theorem getLast?_withLineEnds {t : Text} (h : t.getLast? = some '>') (image : Text) :
    (t.withLineEnds image).getLast? = some '>' := by
  obtain ⟨s, rfl⟩ := List.getLast?_eq_some_iff.1 h
  rw [withLineEnds, List.flatMap_append, List.flatMap_singleton, if_neg (by decide), List.getLast?_concat]

theorem withoutMark_image (lineEnd : LineEnd) : withoutMark lineEnd.image = lineEnd.image := by
  cases lineEnd <;> rfl

end Text

namespace Formatter

theorem withoutMark_marked (t result : Text) :
    (marked t result).withoutMark = if t.hasMark then result else result.withoutMark := by
  rw [marked]
  split
  · rfl
  · rfl

/-- A formatted text ends in exactly one line end. For a document without nodes at the top level it is the line end,
and for any other it is a text that ends with a bracket, and the line end. -/
theorem format_lastLine {profile : Profile} (hvalid : profile.Valid) {correlationId : Option String}
    {embedders : Registry} {f : Formatter} (hmake : make profile correlationId embedders = .ok f) {t : Text}
    {d : Document} (hread : read t = .ok d) :
    ∃ r lineEnd body, f.format t = .ok r ∧ profile.lineEnd = .ok lineEnd ∧
      r.formatted.withoutMark = body ++ lineEnd.image ∧
      (d.topNodes = [] ∧ body = [] ∨ d.topNodes ≠ [] ∧ body.getLast? = some '>') := by
  obtain ⟨rfl, -, hindentation⟩ := of_make hmake
  obtain ⟨page, lineEnd, hpage, hlineEnd⟩ := hvalid.exists_page
  have hcloses : ∀ doc ∈ d.topNodes.map (·.layout (f.job t.normalize)), doc.ClosesWith '>' :=
    List.forall_mem_map.2 fun node hnode => Document.closesWith_layout hread _ hnode
  obtain ⟨q, body, hruns, htext, hbody⟩ :=
    Stage.exists_runs_lines page (d.allValid_topNodes (f.job t.normalize)) hcloses
  rw [← Document.layout_eq] at hruns
  have hprint := Profile.print_of_runs hindentation hpage hlineEnd hruns
  have hlines : q.text.withLineEnds lineEnd.image = body.withLineEnds lineEnd.image ++ lineEnd.image := by
    rw [htext, Text.withLineEnds, List.flatMap_append, List.flatMap_singleton, if_pos rfl]
    rfl
  have hend : ∃ body', (marked t (q.text.withLineEnds lineEnd.image)).withoutMark = body' ++ lineEnd.image ∧
      (d.topNodes = [] ∧ body' = [] ∨ d.topNodes ≠ [] ∧ body'.getLast? = some '>') := by
    rw [withoutMark_marked, hlines]
    rcases hbody with ⟨hnil, rfl⟩ | ⟨hnil, hlast⟩
    · refine ⟨[], ?_, .inl ⟨List.map_eq_nil_iff.1 hnil, rfl⟩⟩
      have himage := Text.withoutMark_image lineEnd
      split
      · rfl
      · exact himage
    · have hnodes : d.topNodes ≠ [] := fun h => hnil (by rw [h]; rfl)
      have hlast' := Text.getLast?_withLineEnds hlast lineEnd.image
      split
      · exact ⟨_, rfl, .inr ⟨hnodes, hlast'⟩⟩
      · obtain ⟨body', heq, hbody'⟩ := Text.exists_withoutMark_append hlast' lineEnd.image
        exact ⟨body', heq, .inr ⟨hnodes, hbody'⟩⟩
  obtain ⟨body', hformatted, hbody'⟩ := hend
  exact ⟨_, lineEnd, body', format_of_print hread hprint, hlineEnd, hformatted, hbody'⟩

/-- A comment behind the root, with a mark in front and blanks behind. -/
def footedText : Text := Text.byteOrderMark :: "<a><b>x</b></a><!--c-->\n \n".toList

/-- Carriage returns as line ends. -/
def returnProfile : Profile where
  layout := Values.set Setting.default .endOfLine (.str "cr")

/-- With an embedded formatter that adds line ends to the text of an element, such a text ends with the bracket of
the comment and one carriage return. -/
theorem format_lastLine_footed :
    ∃ d r body, read footedText = .ok d ∧
      format { profile := returnProfile, embedders := [("b", fun _ t => .ok (t ++ ['\n', '\n'] ++ t))] } footedText =
        .ok r ∧
      r.formatted.withoutMark = body ++ ['\r'] ∧ body.getLast? = some '>' := by
  have hvalid : returnProfile.Valid := by
    refine ⟨⟨returnProfile.layout, ?_⟩, ⟨80, rfl⟩, ⟨2, rfl⟩, ⟨"cr", rfl⟩⟩
    refine congrArg Except.ok (funext fun setting => ?_)
    cases setting <;> rfl
  obtain ⟨d, hread, hroot⟩ := @exists_ok_of_any _ _ (read footedText) (fun d => d.root.isSome) (by decide +kernel)
  obtain ⟨r, lineEnd, body, hformat, hlineEnd, hformatted, hbody⟩ := @format_lastLine returnProfile hvalid none
    [("b", fun _ t => .ok (t ++ ['\n', '\n'] ++ t))] _ rfl _ _ hread
  obtain ⟨e, he⟩ := Option.isSome_iff_exists.1 hroot
  have hnodes : d.topNodes ≠ [] := List.ne_nil_of_mem (Document.root_mem_topNodes he)
  cases hlineEnd
  exact ⟨d, r, body, hread, hformat, hformatted, (hbody.resolve_left fun h => hnodes h.1).2⟩

end Formatter

end XmlTidy
