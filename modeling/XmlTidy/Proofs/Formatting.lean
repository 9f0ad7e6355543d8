import XmlTidy.Format.Formatter
import XmlTidy.Proofs.DocumentPrinting
import XmlTidy.Proofs.LocatedLayout
import XmlTidy.Proofs.Sections

/-!
Formatting a text. With a valid profile and no embedders, every text that can be read is formatted, and the
result is the text of a document that the one read may be printed as, with the line ends of the
profile. Reading the result undoes the line ends. With a page that suits the style, formatting it again
changes nothing.
-/

namespace XmlTidy

/-! ### Line ends and marks -/

namespace Text

theorem unifyLineEnds_cons {c : Char} (hc : c ≠ '\r') (t : Text) :
    unifyLineEnds (c :: t) = c :: unifyLineEnds t := by
  rw [unifyLineEnds]
  · rintro _ rfl
    exact absurd rfl hc
  · exact hc

theorem clean_unifyLineEnds (t : Text) : (unifyLineEnds t).Clean := by
  fun_induction unifyLineEnds t with
  | case1 => simp [Clean]
  | case2 t ih => exact clean_cons.2 ⟨by decide, ih⟩
  | case3 t _ ih => exact clean_cons.2 ⟨by decide, ih⟩
  | case4 c t _ hc ih => exact clean_cons.2 ⟨hc, ih⟩

theorem clean_normalize (t : Text) : t.normalize.Clean := clean_unifyLineEnds _

theorem withLineEnds_cons (c : Char) (t image : Text) :
    withLineEnds (c :: t) image = (if c = '\n' then image else [c]) ++ withLineEnds t image := by
  simp [withLineEnds]

/-- A carriage return stands for a newline unless one follows it. -/
theorem unifyLineEnds_return {t : Text} (h : t.head? ≠ some '\n') :
    unifyLineEnds ('\r' :: t) = '\n' :: unifyLineEnds t := by
  rw [unifyLineEnds]
  rintro s rfl
  exact h rfl

theorem head_withLineEnds_return (t : Text) : (withLineEnds t LineEnd.cr.image).head? ≠ some '\n' := by
  cases t with
  | nil => simp [withLineEnds]
  | cons c t =>
      rw [withLineEnds_cons]
      split
      · simp [LineEnd.image]
      · simpa

/-- Reading undoes the line ends of a text. -/
theorem unifyLineEnds_withLineEnds {t : Text} (h : t.Clean) (lineEnd : LineEnd) :
    unifyLineEnds (t.withLineEnds lineEnd.image) = t := by
  induction t with
  | nil => rfl
  | cons c t ih =>
      obtain ⟨hc, ht⟩ := clean_cons.1 h
      rw [withLineEnds_cons]
      split
      · next heq =>
          subst heq
          cases lineEnd with
          | lf => rw [LineEnd.image, List.singleton_append, unifyLineEnds_cons (by decide), ← LineEnd.image, ih ht]
          | crlf =>
              have hcrlf := unifyLineEnds.eq_2 (withLineEnds t LineEnd.crlf.image)
              rw [ih ht] at hcrlf
              exact hcrlf
          | cr =>
              have hcr := unifyLineEnds_return (head_withLineEnds_return t)
              rw [ih ht] at hcr
              exact hcr
      · rw [List.singleton_append, unifyLineEnds_cons hc, ih ht]

/-- Texts without a byte order mark. -/
def Unmarked (t : Text) : Prop := t.head? ≠ some byteOrderMark

theorem hasMark_eq_false {t : Text} (h : t.Unmarked) : t.hasMark = false := by
  simpa [hasMark, Unmarked] using h

theorem unmarked_withLineEnds {t : Text} (h : t.Unmarked) (lineEnd : LineEnd) :
    Unmarked (t.withLineEnds lineEnd.image) := by
  cases t with
  | nil => exact h
  | cons c t =>
      rw [withLineEnds_cons]
      split
      · cases lineEnd <;> simp [Unmarked, LineEnd.image, byteOrderMark]
      · simpa [Unmarked] using h

end Text

namespace Formatter

open Text

theorem hasMark_marked {result : Text} (h : result.Unmarked) (t : Text) :
    (marked t result).hasMark = t.hasMark := by
  rw [marked]
  split
  · next ht =>
      rw [ht]
      rfl
  · next ht => rw [hasMark_eq_false h, Bool.eq_false_iff.2 ht]

/-- Reading a result undoes its line ends and its mark. -/
theorem normalize_marked {result : Text} (hclean : result.Clean) (hunmarked : result.Unmarked)
    (lineEnd : LineEnd) (t : Text) :
    (marked t (result.withLineEnds lineEnd.image)).normalize = result := by
  have hunmarked' := unmarked_withLineEnds hunmarked lineEnd
  rw [Text.normalize, hasMark_marked hunmarked', marked]
  split
  · exact unifyLineEnds_withLineEnds hclean lineEnd
  · exact unifyLineEnds_withLineEnds hclean lineEnd

end Formatter

/-! ### Valid profiles -/

namespace Profile

/-- A profile whose layout section passed its check, with values of the right kinds: whole widths and a named
line end. The printer section may hold anything. -/
structure Valid (p : Profile) : Prop where
  checked : ∃ values, checkLayout values = .ok p.layout
  width : ∃ n, p.layout .printWidth = .int n
  tabWidth : ∃ n, p.layout .tabWidth = .int n
  lineEnd : ∃ key, p.layout .endOfLine = .str key

theorem Valid.exists_page {p : Profile} (h : p.Valid) :
    ∃ page lineEnd, p.page? = some page ∧ p.lineEnd = .ok lineEnd := by
  obtain ⟨⟨values, hchecked⟩, ⟨width, hwidth⟩, ⟨tabWidth, htabWidth⟩, ⟨key, hkey⟩⟩ := h
  have hlayout := checkLayout_iff.1 (Section.check_of_check (s := .layout) hchecked)
  have hpositive := hlayout.width
  have htabPositive := hlayout.tabWidth
  rw [hwidth] at hpositive
  rw [htabWidth] at htabPositive
  have hw : 0 < width.toNat := by
    have : decide (0 < width) = true := by simpa [isPositive, Json.int] using hpositive
    simpa using this
  have ht : 0 < tabWidth.toNat := by
    have : decide (0 < tabWidth) = true := by simpa [isPositive, Json.int] using htabPositive
    simpa using this
  have hpage : ∃ page, p.page? = some page := by
    rw [page?, hwidth, htabWidth]
    simp only [Json.int, Json.measure]
    exact ⟨_, dif_pos ⟨hw, ht⟩⟩
  obtain ⟨page, hpage⟩ := hpage
  exact ⟨page, _, hpage, by rw [Profile.lineEnd, hkey]⟩

end Profile

/-! ### The result -/

namespace Formatter

open Spelled Text

/-- A formatter for a valid profile, without embedders. -/
theorem of_make {profile : Profile} {correlationId : Option String} {embedders : Registry} {f : Formatter}
    (h : make profile correlationId embedders = .ok f) :
    f.profile = profile ∧ f.embedders = embedders ∧ profile.checkIndentation = .ok () := by
  cases hcheck : profile.checkIndentation with
  | error fault => simp [make, hcheck, bind, Except.bind] at h
  | ok =>
      simp only [make, hcheck, bind, Except.bind, pure, Except.pure, Except.ok.injEq] at h
      subst h
      exact ⟨rfl, rfl, rfl⟩

/-- Where there is room for some blanks, no more can be indented by than can be counted. -/
theorem make_of_room {profile : Profile} {correlationId : Option String} {embedders : Registry} {f : Formatter}
    {room : Int} (h : make profile correlationId embedders room = .ok f) :
    make profile correlationId embedders = .ok f := by
  obtain ⟨_, hcheck, h⟩ := exists_of_bind_eq_ok h
  cases h
  have hcountable : profile.checkIndentation = .ok () := by
    rw [Profile.checkIndentation] at hcheck ⊢
    split at hcheck
    · next htabs => rw [if_pos htabs]
    · next htabs =>
        rw [if_neg htabs]
        split at hcheck
        · cases hcheck
        · split at hcheck
          · cases hcheck
          · next hn => rw [if_neg hn, if_neg hn]
  rw [make, hcountable]
  rfl

section Result

variable {f : Formatter} {page : Page} {lineEnd : LineEnd} (hindentation : f.profile.checkIndentation = .ok ())
  (hpage : f.profile.page? = some page) (hlineEnd : f.profile.lineEnd = .ok lineEnd)
  (hembedders : f.embedders = [])
include hindentation hpage hlineEnd hembedders

/-- The result of formatting a text: what is printed for its spelling. -/
theorem format_eq {t : Text} {w : Whole} (hw : w.WellFormed) (ht : t.normalize = w.text) :
    ∃ r, f.format t = .ok r ∧ r.formatted =
      marked t (((w.doc f.profile.style).run page 0 .broken .clear .empty).text.withLineEnds lineEnd.image) := by
  have hclean : w.text.Clean := ht ▸ clean_normalize t
  have hread : read t = .ok w.locate := by rw [read, ht, read_text hw]
  have hlayout : w.locate.layout (f.job t.normalize) = w.doc f.profile.style :=
    document_layout_locate hembedders hw ht
  have hprint : f.profile.print (w.doc f.profile.style) =
      .ok (((w.doc f.profile.style).run page 0 .broken .clear .empty).text.withLineEnds lineEnd.image) := by
    simp only [Profile.print, hindentation, Profile.printLines, hpage,
      Doc.print_eq_run (Whole.neat hclean) page, hlineEnd]
    rfl
  simp only [format, hread, hlayout, bind, Except.bind, Except.mapError, hprint]
  exact ⟨_, rfl, rfl⟩

end Result

/-- A document starts with a bracket or a blank. -/
theorem unmarked_text {w : Whole} (htops : ∀ top ∈ w.tops, Blanks top.1 ∧ top.2.WellFormed)
    (htail : Blanks w.tail) : w.text.Unmarked := by
  have hblanks : ∀ {t : Text}, Blanks t → t.Unmarked := by
    intro t ht hhead
    exact absurd (ht _ (List.mem_of_head? hhead)) (by decide)
  have hangle : ∀ t : Text, Unmarked ('<' :: t) := by
    intro t
    simp [Unmarked, byteOrderMark]
  obtain ⟨declaration, tops, tail⟩ := w
  cases declaration with
  | some d => exact hangle _
  | none =>
      simp only [Whole.text, Whole.declarationText, List.nil_append]
      cases tops with
      | nil => exact hblanks htail
      | cons first rest =>
          obtain ⟨hgap, htop⟩ := htops first (by simp)
          obtain ⟨gap, top⟩ := first
          obtain ⟨t, ht⟩ := Cursor.angle_of_top htop
          have htext : Whole.topsText ((gap, top) :: rest) ++ tail =
              gap ++ '<' :: (t ++ (Whole.topsText rest ++ tail)) := by
            simp [Whole.topsText, show top.text = '<' :: t from ht]
          rw [htext]
          cases gap with
          | nil => exact hangle _
          | cons c gap => exact fun hhead => hblanks hgap hhead

/-- What formatting does to a text that is spelled in some way. -/
structure Formatted (f : Formatter) (t : Text) (w w' : Whole) (eol : LineEnd) (r : Result) : Prop where
  wellFormed : w.WellFormed
  source : t.normalize = w.text
  reshaped : w.Reshaped f.profile.style w'
  laid : ∀ page ∈ f.profile.page?, w.Laid f.profile.style page w'
  lineEnd : f.profile.lineEnd = .ok eol
  format : f.format t = .ok r
  formatted : r.formatted = marked t (w'.text.withLineEnds eol.image)
  normalize : r.formatted.normalize = w'.text
  again : (∀ page ∈ f.profile.page?, Suits f.profile.style page) → w'.WellFormed →
    ∃ r', f.format r.formatted = .ok r' ∧ r'.formatted = r.formatted

/-- With a valid profile and no embedders, every text that can be read is formatted. -/
theorem exists_formatted {profile : Profile} (hvalid : profile.Valid) {correlationId : Option String}
    {f : Formatter} (hmake : make profile correlationId [] = .ok f) {t : Text} {d : Document}
    (hread : read t = .ok d) :
    ∃ w w' lineEnd r, d = w.locate ∧ Formatted f t w w' lineEnd r := by
  obtain ⟨rfl, hembedders, hindentation⟩ := of_make hmake
  obtain ⟨page, lineEnd, hpage, hlineEnd⟩ := hvalid.exists_page
  obtain ⟨w, hw, hsource, hd⟩ := exists_spelling hread
  obtain ⟨w', hlaid, htext, hagain⟩ := @run_whole f.profile.style w hw (hsource ▸ clean_normalize t) page
  obtain ⟨r, hformat, hformatted⟩ := format_eq hindentation hpage hlineEnd hembedders hw hsource
  rw [htext] at hformatted
  have hreshaped := hlaid.reshaped
  have hclean : w'.text.Clean := by
    rw [← htext]
    exact (Whole.neat (hsource ▸ clean_normalize t)).clean_run page
  have hunmarked := unmarked_text (hreshaped.wellFormed_tops hw) hreshaped.tail_blanks
  have hnormalize : r.formatted.normalize = w'.text := by
    rw [hformatted]
    exact normalize_marked hclean hunmarked lineEnd t
  have hlaid' : ∀ page' ∈ f.profile.page?, w.Laid f.profile.style page' w' := by
    rw [hpage]
    rintro page' ⟨⟩
    exact hlaid
  refine ⟨w, w', lineEnd, r, hd, hw, hsource, hreshaped, hlaid', hlineEnd, hformat, hformatted, hnormalize,
    fun hsuits hw' => ?_⟩
  obtain ⟨r', hformat', hformatted'⟩ := format_eq hindentation hpage hlineEnd hembedders hw' hnormalize
  refine ⟨r', hformat', ?_⟩
  rw [hformatted', hagain (hsuits page hpage), htext, hformatted, marked,
    hasMark_marked (unmarked_withLineEnds hunmarked lineEnd), ← marked]

end Formatter

end XmlTidy
