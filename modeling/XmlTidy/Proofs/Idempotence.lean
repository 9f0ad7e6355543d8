import XmlTidy.Proofs.Skeleton

/-!
Formatting twice. Where whitespace is not ignored, formatting a result that can be read gives that result
again. Where it is ignored, text is wrapped, and the indentation of its lines is read back as part of it. Then
the same holds if indentation is as wide as it counts: with blanks, or with tabs that count as one column. With
wider tabs the columns of a line that was wrapped come out smaller the second time, and more may fit on it.
-/

namespace XmlTidy

namespace Profile

/-- The indentation of the page of a profile. -/
theorem even_of_page? {p : Profile} {page : Page} (hpage : p.page? = some page)
    (h : p.useTabs = false ∨ p.layout .tabWidth = .int 1) : page.Even := by
  unfold page? at hpage
  split at hpage
  · next width tabWidth hwidth htabWidth =>
      split at hpage
      · obtain rfl := Option.some.inj hpage
        rcases h with htabs | hone
        · exact .inl htabs
        · rw [hone] at htabWidth
          cases htabWidth
          exact .inr rfl
      · cases hpage
  · cases hpage

end Profile

namespace Formatter

section Twice

variable {profile : Profile} (hvalid : profile.Valid) {correlationId : Option String} {f : Formatter}
  (hmake : make profile correlationId [] = .ok f) {t : Text} {d : Document} (hread : read t = .ok d)
include hvalid hmake hread

/-- Formatting twice is formatting once on pages that suit the style. -/
theorem format_again (hsuits : ∀ page ∈ profile.page?, Spelled.Suits profile.style page) :
    ∃ r, f.format t = .ok r ∧ ∀ d', read r.formatted = .ok d' →
      ∃ r', f.format r.formatted = .ok r' ∧ r'.formatted = r.formatted := by
  obtain ⟨w, w', lineEnd, r, rfl, h⟩ := exists_formatted hvalid hmake hread
  refine ⟨r, h.format, fun d' hread' => ?_⟩
  rw [read, h.normalize] at hread'
  refine h.again ?_ (h.reshaped.wellFormed_of_read h.wellFormed hread')
  rwa [(of_make hmake).1]

/-- A result can be read if the text has no declaration without attributes. -/
theorem exists_read_format (hprolog : ∀ p ∈ d.prolog, p.attributes ≠ []) :
    ∃ r d', f.format t = .ok r ∧ read r.formatted = .ok d' := by
  obtain ⟨w, w', lineEnd, r, rfl, h⟩ := exists_formatted hvalid hmake hread
  exact ⟨r, _, h.format, h.read_eq (h.reshaped.wellFormed_of_attributes h.wellFormed hprolog)⟩

end Twice

/-- Unless whitespace is ignored, formatting twice is formatting once. -/
theorem format_format {profile : Profile} (hvalid : profile.Valid) {correlationId : Option String}
    {f : Formatter} (hmake : make profile correlationId [] = .ok f)
    (hsensitivity : profile.style.sensitivity = .strict ∨ profile.style.sensitivity = .preserve) {t : Text}
    {d : Document} (hread : read t = .ok d) :
    ∃ r, f.format t = .ok r ∧ ∀ d', read r.formatted = .ok d' →
      ∃ r', f.format r.formatted = .ok r' ∧ r'.formatted = r.formatted := by
  refine format_again hvalid hmake hread fun page _ hignore => ?_
  rcases hsensitivity with hs | hs <;> rw [hs] at hignore <;> cases hignore

/-- Text, a comment behind it, and a tag that is written over two lines. -/
def preservedText : Text :=
  "<a k='1'\n><b> one <!-- two --></b>\n\n <c><d /> <!-- three --></c></a>".toList

/-- Such a text is formatted, its result can be read, and formatting it again changes nothing. -/
theorem format_format_preserved :
    ∃ f r d' r',
      make { printer := Values.set Setting.default .whitespaceSensitivity (.str "preserve") } none [] = .ok f ∧
      f.format preservedText = .ok r ∧ read r.formatted = .ok d' ∧ f.format r.formatted = .ok r' ∧
      r'.formatted = r.formatted := by
  obtain ⟨d, hread, hprolog⟩ := @exists_ok_of_any _ _ (read preservedText) (fun d => d.prolog.isNone)
    (by decide +kernel)
  let profile : Profile := { printer := Values.set Setting.default .whitespaceSensitivity (.str "preserve") }
  obtain ⟨f, hmake⟩ : ∃ f, make profile none [] = .ok f := ⟨_, rfl⟩
  have hvalid : profile.Valid := Profile.valid_of_layout rfl
  have hnone : ∀ p ∈ d.prolog, p.attributes ≠ [] := by simp [Option.isNone_iff_eq_none.1 hprolog]
  obtain ⟨r₁, d', hformat₁, hread'⟩ := exists_read_format hvalid hmake hread hnone
  obtain ⟨r, hformat, hagain⟩ := format_format hvalid hmake (.inr rfl) hread
  obtain rfl : r = r₁ := Except.ok.inj (hformat.symm.trans hformat₁)
  obtain ⟨r', hformat', hsame⟩ := hagain d' hread'
  exact ⟨f, r, d', r', hmake, hformat, hread', hformat', hsame⟩

/-- Also where whitespace is ignored, formatting twice is formatting once if lines are indented by blanks, or by
tabs that count as one column. -/
theorem format_format_of_even {profile : Profile} (hvalid : profile.Valid) {correlationId : Option String}
    {f : Formatter} (hmake : make profile correlationId [] = .ok f)
    (hindentation : profile.useTabs = false ∨ profile.layout .tabWidth = .int 1) {t : Text} {d : Document}
    (hread : read t = .ok d) :
    ∃ r, f.format t = .ok r ∧ ∀ d', read r.formatted = .ok d' →
      ∃ r', f.format r.formatted = .ok r' ∧ r'.formatted = r.formatted :=
  format_again hvalid hmake hread fun _ hpage _ => Profile.even_of_page? hpage hindentation

/-- Whitespace is ignored, and lines are short. -/
def narrow (tabs : Bool) : Profile where
  printer := Values.set Setting.default .whitespaceSensitivity (.str "ignore")
  layout :=
    ((Values.set Setting.default .printWidth (.int 16)).set .tabWidth (.int 8)).set .useTabs (.bool tabs)

theorem valid_narrow (tabs : Bool) : (narrow tabs).Valid where
  checked := by
    refine ⟨(narrow tabs).layout, ?_⟩
    refine congrArg Except.ok ?_
    funext setting
    cases setting <;> rfl
  width := ⟨16, rfl⟩
  tabWidth := ⟨8, rfl⟩
  lineEnd := ⟨"lf", rfl⟩

/-- Text that does not fit on a line, and a comment behind it. -/
def narrowText : Text := "<a>aaaa bbbb<!--c--></a>".toList

/-- Such a text is wrapped, the result can be read, and with blanks formatting it again changes nothing. -/
theorem format_format_of_even_narrow :
    ∃ f r d' r', make (narrow false) none [] = .ok f ∧ (narrow false).style.sensitivity = .ignore ∧
      f.format narrowText = .ok r ∧ read r.formatted = .ok d' ∧ f.format r.formatted = .ok r' ∧
      r'.formatted = r.formatted := by
  obtain ⟨d, hread, hprolog⟩ := @exists_ok_of_any _ _ (read narrowText) (fun d => d.prolog.isNone)
    (by decide +kernel)
  obtain ⟨f, hmake⟩ : ∃ f, make (narrow false) none [] = .ok f := ⟨_, rfl⟩
  have hnone : ∀ p ∈ d.prolog, p.attributes ≠ [] := by simp [Option.isNone_iff_eq_none.1 hprolog]
  obtain ⟨r₁, d', hformat₁, hread'⟩ := exists_read_format (valid_narrow false) hmake hread hnone
  obtain ⟨r, hformat, hagain⟩ := format_format_of_even (valid_narrow false) hmake (.inl rfl) hread
  obtain rfl : r = r₁ := Except.ok.inj (hformat.symm.trans hformat₁)
  obtain ⟨r', hformat', hsame⟩ := hagain d' hread'
  exact ⟨f, r, d', r', hmake, rfl, hformat, hread', hformat', hsame⟩

section Tabs

open Spelled

/-- An element without attributes on its own. -/
def lone (children : List Item) (tail : Text) : Whole :=
  ⟨none, [([], .root (.full ⟨['a'], [], []⟩ children []))], tail⟩

theorem wellFormed_lone {children : List Item} (h : Item.WellFormedAll children) {tail : Text}
    (htail : Blanks tail) : (lone children tail).WellFormed := by
  refine ⟨by simp [lone], ?_, List.pairwise_singleton .., htail⟩
  simp only [lone, List.mem_singleton, forall_eq]
  refine ⟨blanks_nil, trivial, ?_⟩
  rw [Item.WellFormed]
  exact ⟨⟨⟨'a', [], rfl, rfl, by simp⟩, by simp, blanks_nil⟩, h, blanks_nil⟩

def narrowChildren : List Item := [.leaf .text "aaaa bbbb".toList, .leaf .comment "<!--c-->".toList]

/-- The text on two lines, with the tab that indents the comment behind it. -/
def wrappedChildren : List Item :=
  [.leaf .blank "\n\t".toList, .leaf .text "aaaa\n\tbbbb\n\t".toList, .leaf .comment "<!--c-->".toList,
    .leaf .blank "\n".toList]

theorem wellFormedAll_narrow : Item.WellFormedAll narrowChildren ∧ Item.WellFormedAll wrappedChildren := by
  have hcomment : LeafClass.Image .comment "<!--c-->".toList :=
    ⟨by decide, @Text.endsAt_of_through? _ "<!--c-->".toList _ [] (by decide) (by decide)⟩
  have htext : ∀ c image, isBlank c = false → (c :: image).all Cursor.isTextChar = true →
      LeafClass.Image .text (c :: image) := fun c image hc h =>
    ⟨by simp, stops_cons.2 hc, List.all_eq_true.1 h⟩
  have hblank : ∀ c image, (c :: image).all isBlank = true → LeafClass.Image .blank (c :: image) :=
    fun c image h => ⟨by simp, List.all_eq_true.1 h⟩
  constructor
  · simp only [narrowChildren, Item.WellFormedAll, Item.WellFormed, Item.Apart, List.head?_cons, List.head?_nil,
      Option.mem_def, Option.some.injEq, reduceCtorEq, forall_eq', implies_true, and_true, true_and]
    exact ⟨htext _ _ rfl rfl, hcomment⟩
  · simp only [wrappedChildren, Item.WellFormedAll, Item.WellFormed, Item.Apart, List.head?_cons, List.head?_nil,
      Option.mem_def, Option.some.injEq, reduceCtorEq, forall_eq', implies_true, and_true, true_and]
    exact ⟨hblank _ _ rfl, htext _ _ rfl rfl, hcomment, hblank _ _ rfl, by simp⟩

/-- The page with tabs. -/
def narrowPage : Page where
  width := 16
  tabWidth := 8
  useTabs := true
  lineEnd := .lf
  width_pos := by decide
  tabWidth_pos := by decide

/-- With tabs, the comment comes to stand behind the text when the text is formatted again: the second line of
the text starts at the column of its tab, and no longer where the tab ends. -/
theorem format_format_tabbed :
    ∃ f d r d' r', (narrow true).Valid ∧ make (narrow true) none [] = .ok f ∧
      (narrow true).style.sensitivity = .ignore ∧ read narrowText = .ok d ∧ f.format narrowText = .ok r ∧
      read r.formatted = .ok d' ∧ f.format r.formatted = .ok r' ∧
      r.formatted = "<a>\n\taaaa\n\tbbbb\n\t<!--c-->\n</a>\n".toList ∧
      r'.formatted = "<a>\n\taaaa\n\tbbbb <!--c-->\n</a>\n".toList := by
  obtain ⟨hnarrow, hwrapped⟩ := wellFormedAll_narrow
  let f : Formatter := { profile := narrow true }
  have hfirst : (((lone narrowChildren []).doc (narrow true).style).run narrowPage 0 .broken .clear .empty).text =
      "<a>\n\taaaa\n\tbbbb\n\t<!--c-->\n</a>\n".toList := by decide +kernel
  have hsecond : (((lone wrappedChildren ['\n']).doc (narrow true).style).run narrowPage 0 .broken .clear
      .empty).text = "<a>\n\taaaa\n\tbbbb <!--c-->\n</a>\n".toList := by decide +kernel
  have hw := wellFormed_lone hnarrow blanks_nil
  have hw' := wellFormed_lone hwrapped (List.all_eq_true.1 (show ['\n'].all isBlank = true from rfl))
  have hsource : narrowText.normalize = (lone narrowChildren []).text := by decide +kernel
  have hsource' : Text.normalize "<a>\n\taaaa\n\tbbbb\n\t<!--c-->\n</a>\n".toList =
      (lone wrappedChildren ['\n']).text := by decide +kernel
  obtain ⟨r, hformat, hformatted⟩ := @format_eq f narrowPage .lf rfl rfl rfl rfl narrowText _ hw hsource
  have houtput : r.formatted = "<a>\n\taaaa\n\tbbbb\n\t<!--c-->\n</a>\n".toList := by
    rw [hformatted, hfirst]
    decide
  rw [← houtput] at hsource'
  obtain ⟨r', hformat', hformatted'⟩ := @format_eq f narrowPage .lf rfl rfl rfl rfl r.formatted _ hw' hsource'
  refine ⟨f, (lone narrowChildren []).locate, r, (lone wrappedChildren ['\n']).locate, r', valid_narrow true, rfl,
    rfl, ?_, hformat, ?_, hformat', houtput, ?_⟩
  · rw [read, hsource, read_text hw]
  · rw [read, hsource', read_text hw']
  · rw [hformatted', houtput, hsecond]
    decide

end Tabs

end Formatter

end XmlTidy
