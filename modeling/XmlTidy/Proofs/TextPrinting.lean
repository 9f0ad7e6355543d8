import XmlTidy.Proofs.LineCuts
import XmlTidy.Proofs.TagPrinting

/-!
Printing running text. Text is cut into words and the blanks between them, and a fill prints the words in
their order with other blanks between them. So printed text has the tokens of the text it was printed
from, where the tokens of a text are what stands between its blanks.
-/

namespace XmlTidy

open Printed

/-! ### Tokens -/

/-- What stands between the blanks of a text. -/
def Text.tokens (t : Text) : List Text :=
  (t.splitOnP isBlank).filter (! ·.isEmpty)

/-- Texts with the same first token, which may be empty, and the same tokens behind it. -/
def SameTokens (s t : Text) : Prop :=
  ∃ first rest rest', s.splitOnP isBlank = first :: rest ∧ t.splitOnP isBlank = first :: rest' ∧
    rest.filter (! ·.isEmpty) = rest'.filter (! ·.isEmpty)

namespace SameTokens

theorem tokens_eq {s t : Text} (h : SameTokens s t) : s.tokens = t.tokens := by
  obtain ⟨first, rest, rest', hs, ht, hrest⟩ := h
  rw [Text.tokens, Text.tokens, hs, ht, List.filter_cons, List.filter_cons, hrest]

theorem refl (t : Text) : SameTokens t t := by
  obtain ⟨first, rest, h⟩ := List.exists_cons_of_ne_nil (List.splitOnP_ne_nil isBlank t)
  exact ⟨first, rest, rest, h, h, rfl⟩

theorem cons (c : Char) {s t : Text} (h : SameTokens s t) : SameTokens (c :: s) (c :: t) := by
  obtain ⟨first, rest, rest', hs, ht, hrest⟩ := h
  rw [SameTokens, List.splitOnP_cons_eq_if_modifyHead, List.splitOnP_cons_eq_if_modifyHead, hs, ht]
  split
  · exact ⟨[], _, _, rfl, rfl, by rw [List.filter_cons, List.filter_cons, hrest]⟩
  · exact ⟨_, _, _, rfl, rfl, hrest⟩

end SameTokens

theorem tokens_append_of_blanks {g : Text} (hg : Blanks g) (t : Text) : (g ++ t).tokens = t.tokens := by
  induction g with
  | nil => rfl
  | cons c g ih =>
      have hc : isBlank c = true := hg c (by simp)
      have hg' : Blanks g := fun d hd => hg d (by simp [hd])
      rw [← ih hg', List.cons_append, Text.tokens, List.splitOnP_cons_eq_if_modifyHead, if_pos hc]
      rfl

/-- Blanks stand for blanks. -/
theorem sameTokens_gap {g g' : Text} (hg : IsGap g) (hg' : IsGap g') {s t : Text} (h : SameTokens s t) :
    SameTokens (g ++ s) (g' ++ t) := by
  have key : ∀ {g u : Text}, IsGap g → ∃ rest, (g ++ u).splitOnP isBlank = [] :: rest ∧
      rest.filter (! ·.isEmpty) = u.tokens := by
    rintro g u ⟨hblanks, hne⟩
    obtain ⟨c, g, rfl⟩ := List.exists_cons_of_ne_nil hne
    have hc : isBlank c = true := hblanks c (by simp)
    refine ⟨_, by rw [List.cons_append, List.splitOnP_cons_eq_if_modifyHead, if_pos hc], ?_⟩
    exact tokens_append_of_blanks (fun d hd => hblanks d (by simp [hd])) u
  obtain ⟨rest, hs, hrest⟩ := @key g s hg
  obtain ⟨rest', ht, hrest'⟩ := @key g' t hg'
  exact ⟨[], rest, rest', hs, ht, by rw [hrest, hrest', h.tokens_eq]⟩

/-- Blanks at the end hold no token. -/
theorem sameTokens_append_blanks (t : Text) {g : Text} (hg : Blanks g) : SameTokens t (t ++ g) := by
  induction t with
  | nil =>
      cases g with
      | nil => exact .refl []
      | cons c g =>
          have hc : isBlank c = true := hg c (by simp)
          have hg' : Blanks g := fun d hd => hg d (by simp [hd])
          have htokens := tokens_append_of_blanks hg' []
          rw [List.append_nil] at htokens
          refine ⟨[], [], _, rfl, by rw [List.nil_append, List.splitOnP_cons_eq_if_modifyHead, if_pos hc], ?_⟩
          exact htokens.symm
  | cons c t ih => exact ih.cons c

/-! ### Respacing -/

/-- Texts that differ only in the blanks between their tokens. -/
inductive Respaced : Text → Text → Prop where
  | nil : Respaced [] []
  | char (c : Char) {s t : Text} (h : Respaced s t) : Respaced (c :: s) (c :: t)
  | gap {g g' s t : Text} (hg : IsGap g) (hg' : IsGap g') (h : Respaced s t) :
      Respaced (g ++ s) (g' ++ t)

namespace Respaced

variable {s t : Text}

theorem refl (t : Text) : Respaced t t := by
  induction t with
  | nil => exact .nil
  | cons c t ih => exact .char c ih

theorem append {u v : Text} (h : Respaced s t) (h' : Respaced u v) : Respaced (s ++ u) (t ++ v) := by
  induction h with
  | nil => exact h'
  | char c _ ih => exact .char c ih
  | gap hg hg' _ ih =>
      rw [List.append_assoc, List.append_assoc]
      exact .gap hg hg' ih

theorem sameTokens (h : Respaced s t) : SameTokens s t := by
  induction h with
  | nil => exact .refl []
  | char c _ ih => exact ih.cons c
  | gap hg hg' _ ih => exact sameTokens_gap hg hg' ih

theorem mem (h : Respaced s t) {c : Char} (hc : c ∈ t) : c ∈ s ∨ isBlank c = true := by
  induction h with
  | nil => simp at hc
  | char d _ ih =>
      rcases List.mem_cons.1 hc with rfl | hc
      · simp
      · exact (ih hc).imp_left (List.mem_cons_of_mem _)
  | gap hg hg' _ ih =>
      rcases List.mem_append.1 hc with hc | hc
      · exact .inr (hg'.1 c hc)
      · exact (ih hc).imp_left (List.mem_append_right _)

theorem eq_nil (h : Respaced [] t) : t = [] := by
  generalize hs : ([] : Text) = s at h
  cases h with
  | nil => rfl
  | char c h => simp at hs
  | gap hg _ _ => exact absurd (List.append_eq_nil_iff.1 hs.symm).1 hg.2

/-- A first character that is no blank stays. -/
theorem head {c : Char} (h : Respaced (c :: s) t) (hc : isBlank c = false) : ∃ t', t = c :: t' := by
  generalize hs : c :: s = u at h
  cases h with
  | nil => simp at hs
  | char d h =>
      rw [List.cons.injEq] at hs
      exact ⟨_, by rw [hs.1]⟩
  | @gap g g' s t hg hg' h =>
      obtain ⟨d, g, rfl⟩ := List.exists_cons_of_ne_nil hg.2
      rw [List.cons_append, List.cons.injEq] at hs
      have := hg.1 d (by simp)
      rw [← hs.1, hc] at this
      exact absurd this Bool.false_ne_true

/-- A last character that is no blank stays. -/
theorem getLast? (h : Respaced s t) {c : Char} (hs : s.getLast? = some c) (hc : isBlank c = false) :
    t.getLast? = some c := by
  induction h with
  | nil => simp at hs
  | @char d s t h ih =>
      cases s with
      | nil =>
          obtain rfl := h.eq_nil
          exact hs
      | cons e s =>
          rw [List.getLast?_cons_cons] at hs
          have := ih hs
          cases t with
          | nil => simp at this
          | cons e' t => rwa [List.getLast?_cons_cons]
  | @gap g g' s t hg hg' h ih =>
      rw [List.getLast?_append] at hs ⊢
      cases hlast : s.getLast? with
      | none =>
          rw [hlast, Option.none_or] at hs
          have := hg.1 c (List.mem_of_getLast? hs)
          rw [hc] at this
          exact absurd this Bool.false_ne_true
      | some d =>
          rw [hlast, Option.some_or] at hs
          rw [ih (by rw [hlast, hs]), Option.some_or]

end Respaced

/-! ### Segments -/

/-- A segment of a line in a fill. -/
def segmentDoc : Segment → Doc
  | ⟨.space, _⟩ => .spaceLine
  | ⟨_, value⟩ => .text value

/-- A line as a fill. -/
def lineFill (l : Text) : Doc := .fill ((cutLine [] [] l).map segmentDoc)

theorem kind_of_mem_cutLine {word gap t : Text} {s : Segment} (h : s ∈ cutLine word gap t) :
    s.kind ≠ .newline := by
  fun_induction cutLine word gap t with
  | case1 word gap =>
      obtain rfl : s = _ := by simpa using h
      simp
  | case5 word gap c t _ _ _ ih =>
      rcases List.mem_cons.1 h with rfl | h
      · simp
      · rcases List.mem_cons.1 h with rfl | h
        · simp
        · exact ih h
  | case2 => rename_i ih; exact ih h
  | case3 => rename_i ih; exact ih h
  | case4 => rename_i ih; exact ih h
  | case6 => rename_i ih; exact ih h

theorem mem_of_mem_cutLine {word gap t : Text} {s : Segment} (h : s ∈ cutLine word gap t) {c : Char}
    (hc : c ∈ s.value) : c ∈ word ++ (gap ++ t) := by
  fun_induction cutLine word gap t <;> simp_all <;> grind

theorem segmentFills_append {line : List Segment} (h : ∀ s ∈ line, s.kind ≠ .newline) (current : List Doc)
    (rest : List Segment) :
    segmentFills current (line ++ rest) = segmentFills ((line.map segmentDoc).reverse ++ current) rest := by
  induction line generalizing current with
  | nil => rfl
  | cons s line ih =>
      have hline := ih (fun s' hs' => h s' (by simp [hs']))
      obtain ⟨kind, value⟩ := s
      cases kind with
      | newline => exact absurd rfl (h ⟨.newline, value⟩ (by simp))
      | word =>
          rw [List.cons_append, segmentFills, hline]
          simp [segmentDoc]
      | space =>
          rw [List.cons_append, segmentFills, hline]
          simp [segmentDoc]

/-- Running text is one fill per line. -/
theorem segmentsLayout_eq (t : Text) :
    segmentsLayout (segments t) =
      .grouped (.concat (Doc.join .literalLine (t.lines.map lineFill))) := by
  obtain ⟨l, ls, h⟩ := Text.exists_lines t
  rw [segmentsLayout, segments_eq, h]
  congr 2
  clear h
  induction ls generalizing l with
  | nil =>
      have := @segmentFills_append (cutLine [] [] l) (fun s hs => kind_of_mem_cutLine hs) [] []
      rw [List.append_nil, List.append_nil] at this
      simp only [List.map_cons, List.map_nil, List.intercalate_singleton, this, segmentFills,
        List.reverse_reverse]
      rfl
  | cons l' ls ih =>
      have := @segmentFills_append (cutLine [] [] l) (fun s hs => kind_of_mem_cutLine hs) []
        ([⟨.newline, ['\n']⟩] ++ [⟨.newline, ['\n']⟩].intercalate ((l' :: ls).map (cutLine [] [])))
      rw [List.append_nil] at this
      rw [List.map_cons, List.map_cons, List.intercalate_cons_cons, ← List.map_cons, List.append_assoc, this,
        List.singleton_append, segmentFills, ih, List.reverse_reverse]
      rfl

/-! ### Fills of text -/

theorem exists_cutLine (word gap t : Text) :
    ∃ value rest, cutLine word gap t = ⟨.word, value⟩ :: rest := by
  fun_induction cutLine word gap t with
  | case1 => exact ⟨_, _, rfl⟩
  | case5 => exact ⟨_, _, rfl⟩
  | case2 => assumption
  | case3 => assumption
  | case4 => assumption
  | case6 => assumption

theorem isPadding_of_isWordChar {c : Char} (h : isWordChar c = true) : isPadding c = false := by
  by_contra hpadding
  simp only [Bool.not_eq_false, isPadding, Bool.or_eq_true, beq_iff_eq] at hpadding
  rcases hpadding with rfl | rfl <;> simp [isWordChar] at h

theorem isBlank_of_isGap {c : Char} (h : isGap c = true) : isBlank c = true := by
  simp only [isGap, Bool.or_eq_true, beq_iff_eq] at h
  rcases h with (rfl | rfl) | rfl <;> rfl

section Fills

variable {page : Page} {depth : Nat} {mode : Mode} {k : Ahead}

/-- A line is printed with its words in order. The blanks in `gap` follow a word character. -/
theorem runFill_cutLine {word gap t : Text}
    (hword : gap ≠ [] → ∃ c rest, word = c :: rest ∧ isWordChar c = true)
    (hgap : ∀ c ∈ gap, isGap c = true) (p : Printed Text Int) :
    ∃ s, Respaced (word.reverse ++ (gap.reverse ++ t)) s ∧
      Wrote p s (Doc.runFill page depth mode ((cutLine word gap t).map segmentDoc) k p) := by
  fun_induction cutLine word gap t generalizing p with
  | case1 word gap =>
      refine ⟨_, .refl _, ?_⟩
      simp only [List.map_cons, List.map_nil, segmentDoc, Doc.runFill, Doc.run_text, List.reverse_append,
        List.append_nil]
      exact wrote_write ..
  | case2 word gap c t hempty hc ih =>
      obtain rfl := List.isEmpty_iff.1 hempty
      rw [Bool.and_eq_true] at hc
      refine ih (fun _ => ?_) (by simpa using hc.1) p
      cases word with
      | nil => simp at hc
      | cons d word => exact ⟨d, word, rfl, by simpa using hc.2⟩
  | case3 word gap c t hempty hc ih =>
      obtain rfl := List.isEmpty_iff.1 hempty
      simpa using ih (by simp) (by simp) p
  | case4 word gap c t hempty hc ih =>
      have hne : gap ≠ [] := by simpa using hempty
      have := ih (fun _ => hword hne) (fun d hd => ?_) p
      · simpa using this
      · rcases List.mem_cons.1 hd with rfl | hd
        · exact hc
        · exact hgap d hd
  | case5 word gap c t hempty hc hword' ih =>
      have hne : gap ≠ [] := by simpa using hempty
      obtain ⟨d, word, rfl, hd⟩ := hword hne
      have hsolid : Text.Solid (d :: word).reverse :=
        ⟨d, by simp, isPadding_of_isWordChar hd⟩
      have hgap' : IsGap gap.reverse := by
        refine ⟨fun e he => isBlank_of_isGap (hgap e (List.mem_reverse.1 he)), by simpa using hne⟩
      obtain ⟨value, rest, hcut⟩ := exists_cutLine [c] [] t
      rw [hcut] at ih ⊢
      simp only [List.map_cons, segmentDoc, Doc.runFill, Doc.run_text] at ih ⊢
      obtain ⟨gap', hgap'', hwrote⟩ := run_spaceLine (solid_write p hsolid)
      obtain ⟨s, hs, hrest⟩ := ih (by simp) (by simp) _
      refine ⟨_, .append (.refl _) (.gap hgap' hgap'' ?_), (wrote_write ..).trans (hwrote.trans hrest)⟩
      simpa using hs
  | case6 word gap c t hempty hc hword' ih =>
      have := ih (by simp) (by simp) p
      simpa using this

/-- A line is printed before the lines behind it, with a newline between them. -/
theorem runAll_lineFills (l l' : Text) (ls : List Text) (mode : Mode) (k : Ahead) (p : Printed Text Int) :
    ∃ k', Doc.runAll page depth mode (Doc.join .literalLine ((l :: l' :: ls).map lineFill)) k p =
      Doc.runAll page depth mode (Doc.join .literalLine ((l' :: ls).map lineFill)) k
        (((lineFill l).run page depth mode k' p).write ['\n']) := by
  rw [List.map_cons, List.map_cons, Doc.join, List.intersperse_cons_cons, Doc.runAll, Doc.runAll,
    Doc.run_literalLine, ← List.map_cons]
  exact ⟨_, rfl⟩

/-- Running text is printed with its words in order. -/
theorem run_segmentsLayout (t : Text) (p : Printed Text Int) :
    ∃ s, Respaced t s ∧ Wrote p s ((segmentsLayout (segments t)).run page depth mode k p) := by
  have hlines : ∀ (ls : List Text) (mode : Mode) (p : Printed Text Int),
      ∃ s, Respaced (['\n'].intercalate ls) s ∧
        Wrote p s (Doc.runAll page depth mode (Doc.join .literalLine (ls.map lineFill)) k p) := by
    intro ls mode
    induction ls with
    | nil => exact fun p => ⟨[], .nil, wrote_nil p⟩
    | cons l ls ih =>
        intro p
        have hline : ∀ k, ∃ s, Respaced l s ∧ Wrote p s ((lineFill l).run page depth mode k p) := by
          intro k
          rw [lineFill, Doc.run]
          obtain ⟨s, hs, hwrote⟩ := @runFill_cutLine page depth mode k [] [] l (by simp) (by simp) p
          exact ⟨s, hs, hwrote⟩
        cases ls with
        | nil =>
            simp only [Doc.join, List.map_cons, List.map_nil, List.intersperse, Doc.runAll, Doc.reachAll,
              List.intercalate_singleton]
            exact hline k
        | cons l' ls =>
            obtain ⟨k', hrun⟩ := @runAll_lineFills page depth l l' ls mode k p
            rw [hrun, List.intercalate_cons_cons, List.append_assoc]
            obtain ⟨s, hs, hwrote⟩ := hline k'
            obtain ⟨s', hs', hwrote'⟩ := ih _
            exact ⟨_, .append hs (.char '\n' hs'), hwrote.trans ((wrote_write _ ['\n']).trans hwrote')⟩
  rw [segmentsLayout_eq, Doc.grouped, Doc.run, Doc.run]
  have := hlines t.lines (Doc.groupMode page mode (.concat (Doc.join .literalLine (t.lines.map lineFill)))
    false k p) p
  rwa [Text.intercalate_lines] at this

/-- A text that starts with no blank is a trimmed text with blanks behind it. -/
theorem trim_spec {image : Text} (hne : image ≠ []) (hstops : Stops isBlank image) :
    ∃ c rest d tail, image.trim = c :: rest ∧ isBlank c = false ∧ image.trim.getLast? = some d ∧
      isBlank d = false ∧ Blanks tail ∧ image = image.trim ++ tail := by
  obtain ⟨c, rest, rfl⟩ := List.exists_cons_of_ne_nil hne
  have hc : isBlank c = false := stops_cons.1 hstops
  have hsplit : (c :: rest : Text) = Text.trim (c :: rest) ++
      ((c :: rest).reverse.takeWhile isBlank).reverse := by
    rw [Text.trim, Text.stripWhile, List.dropWhile_cons_of_neg (by simp [hc]), Text.dropEndWhile,
      ← List.reverse_append, List.takeWhile_append_dropWhile, List.reverse_reverse]
  have hblanks : Blanks ((c :: rest).reverse.takeWhile isBlank).reverse := fun d hd =>
    blanks_takeWhile _ d (List.mem_reverse.1 hd)
  have hlast : ∀ d ∈ (Text.trim (c :: rest)).getLast?, isBlank d = false := by
    intro d hd
    rw [Text.trim, Text.stripWhile, List.dropWhile_cons_of_neg (by simp [hc]), Text.dropEndWhile,
      List.getLast?_reverse] at hd
    exact stops_dropWhile isBlank _ d hd
  cases htrim : Text.trim (c :: rest) with
  | nil =>
      rw [htrim, List.nil_append] at hsplit
      have := hblanks c (by rw [← hsplit]; simp)
      rw [hc] at this
      exact absurd this Bool.false_ne_true
  | cons c' rest' =>
      rw [htrim] at hsplit hlast
      obtain rfl : c = c' := by
        rw [List.cons_append, List.cons.injEq] at hsplit
        exact hsplit.1
      obtain ⟨d, hd⟩ : ∃ d, (c :: rest' : Text).getLast? = some d := by simp [List.getLast?_cons]
      exact ⟨c, rest', d, _, rfl, hc, hd, hlast d hd, hblanks, hsplit⟩

/-- Text among reflowed children is printed as text with the same tokens that ends with no blank. -/
theorem run_textDoc {image : Text} (h : Spelled.LeafClass.Image .text image) (p : Printed Text Int) :
    ∃ image', Spelled.LeafClass.Image .text image' ∧ image'.tokens = image.tokens ∧
      (∃ c, image'.getLast? = some c ∧ isBlank c = false) ∧
      Wrote p image' ((Spelled.textDoc image).run page depth mode k p) := by
  obtain ⟨hne, hstops, hchars⟩ := h
  obtain ⟨c, rest, d, tail, htrim, hc, hlast, hd, htail, himage⟩ := trim_spec hne hstops
  obtain ⟨s, hs, hwrote⟩ := @run_segmentsLayout page depth mode k image.trim p
  obtain ⟨s', rfl⟩ := (htrim ▸ hs).head hc
  refine ⟨c :: s', ⟨List.cons_ne_nil _ _, stops_cons.2 hc, fun e he => ?_⟩, ?_, ⟨d, hs.getLast? hlast hd, hd⟩,
    hwrote⟩
  · rcases hs.mem he with he | he
    · refine hchars e ?_
      rw [himage]
      exact List.mem_append_left _ he
    · simp only [isBlank, Bool.or_eq_true, beq_iff_eq] at he
      rcases he with ((rfl | rfl) | rfl) | rfl <;> rfl
  · rw [← hs.sameTokens.tokens_eq, (sameTokens_append_blanks image.trim htail).tokens_eq, ← himage]

section Ends

variable {t : Text} {c : Char} (h : t.getLast? = some c) (hc : isBlank c = false)
include h hc

theorem solid_of_getLast? : t.Solid := by
  refine ⟨c, h, ?_⟩
  by_contra hpadding
  rw [isBlank_of_isPadding (Bool.eq_true_of_not_eq_false hpadding)] at hc
  cases hc

theorem endsBlank_of_getLast? : t.endsBlank = false := by
  have hdrop : t.reverse.dropWhile isBlank = t.reverse := by
    cases hreverse : t.reverse with
    | nil => rfl
    | cons d s =>
        have hhead : t.reverse.head? = some c := by rw [List.head?_reverse, h]
        rw [hreverse] at hhead
        obtain rfl : d = c := by simpa using hhead
        exact List.dropWhile_cons_of_neg (by simp [hc])
  rw [Text.endsBlank, Text.dropEndWhile, hdrop, List.reverse_reverse]
  simp

end Ends

end Fills

end XmlTidy
