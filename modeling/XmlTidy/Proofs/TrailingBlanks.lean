import XmlTidy.Proofs.Columns

/-!
No line ends in blanks where lines are laid out. Every line break takes the trailing blanks from the line that it
ends, whether they come from texts, from lines that were not broken or from the indentation of a line that
stays empty, and however many pieces they are spread over, and stops at the newline in front of that line. So each
line but the last is what was put on it without its trailing blanks, and the last one is all that was put on it.
-/

namespace XmlTidy

/-! ### Lines of a text -/

namespace Text

theorem lines_append_newline (s t : Text) : lines (s ++ '\n' :: t) = s.lines ++ t.lines := by
  induction s with
  | nil => rfl
  | cons c s ih =>
      obtain ⟨l, ls, hlines⟩ := exists_lines s
      rw [List.cons_append, lines_cons, lines_cons, ih, hlines]
      split <;> rfl

theorem lastLine_line {l : Text} (h : l.hasNewline = false) : lastLine l = l := by
  have hline := lastLine_append [] l
  rwa [if_neg (by simp [h])] at hline

theorem lastLine_append_newline (s t : Text) : lastLine (s ++ '\n' :: t) = t.lastLine := by
  have hfirst := lastLine_append (s ++ ['\n']) t
  rw [List.append_assoc, List.singleton_append] at hfirst
  rw [hfirst]
  cases ht : t.hasNewline with
  | true => rfl
  | false =>
      rw [lastLine_append, lastLine_line ht]
      rfl

/-- What stands behind the last newline is the last of the lines. -/
theorem lines_eq (t : Text) : t.lines = t.lines.dropLast ++ [t.lastLine] := by
  induction t using line_induction with
  | last l hl => rw [lines_line hl, lastLine_line hl, List.dropLast_singleton, List.nil_append]
  | cons l t hl ih =>
      rw [lines_append_newline, lastLine_append_newline, ih, ← List.append_assoc, List.dropLast_concat]

/-- A text without newline goes on with the last line and leaves the others as they are. -/
theorem dropLast_lines_append (s : Text) {t : Text} (h : t.hasNewline = false) :
    (lines (s ++ t)).dropLast = s.lines.dropLast := by
  induction s using line_induction with
  | last l hl =>
      rw [lines_line hl, lines_line (by simp [hasNewline_append, hl, h])]
      rfl
  | cons l s hl ih =>
      obtain ⟨l₁, ls₁, hlines₁⟩ := exists_lines s
      obtain ⟨l₂, ls₂, hlines₂⟩ := exists_lines (s ++ t)
      rw [List.append_assoc, List.cons_append, lines_append_newline, lines_append_newline,
        List.dropLast_append_of_ne_nil (by simp [hlines₂]), ih, List.dropLast_append_of_ne_nil (by simp [hlines₁])]

/-- A newline and a text without newline end the last line and start another. -/
theorem dropLast_lines_newline (s : Text) {t : Text} (h : t.hasNewline = false) :
    (lines (s ++ '\n' :: t)).dropLast = s.lines.dropLast ++ [s.lastLine] := by
  rw [lines_append_newline, lines_line h, List.dropLast_concat, ← lines_eq]

/-! ### Trailing blanks -/

/-- Blanks are dropped up to the newline, if there is nothing else before it. -/
theorem takeWhile_dropWhile_isPadding (t : Text) :
    (t.dropWhile isPadding).takeWhile (· != '\n') = (t.takeWhile (· != '\n')).dropWhile isPadding := by
  induction t with
  | nil => rfl
  | cons c t ih =>
      rw [List.dropWhile_cons, List.takeWhile_cons]
      cases hc : isPadding c with
      | true =>
          have hne : (c != '\n') = true := by
            rw [bne_iff_ne]
            rintro rfl
            cases hc
          rw [if_pos rfl, if_pos hne, List.dropWhile_cons_of_pos hc, ih]
      | false =>
          rw [if_neg (by simp), List.takeWhile_cons]
          split
          · rw [List.dropWhile_cons_of_neg (by simp [hc])]
          · rfl

/-- Dropping the trailing blanks of a text drops those of its last line. -/
theorem lastLine_dropEndWhile (t : Text) :
    lastLine (t.dropEndWhile isPadding) = t.lastLine.dropEndWhile isPadding := by
  rw [lastLine, dropEndWhile, List.reverse_reverse, takeWhile_dropWhile_isPadding, dropEndWhile, lastLine,
    List.reverse_reverse]

/-- It leaves the other lines as they are, even if the last one holds nothing but blanks. -/
theorem dropLast_lines_dropEndWhile (t : Text) :
    (lines (t.dropEndWhile isPadding)).dropLast = t.lines.dropLast := by
  have hsplit : t.dropEndWhile isPadding ++ (t.reverse.takeWhile isPadding).reverse = t := by
    rw [dropEndWhile, ← List.reverse_append, List.takeWhile_append_dropWhile, List.reverse_reverse]
  have hpadding : hasNewline (t.reverse.takeWhile isPadding).reverse = false := by
    rw [hasNewline, ← Bool.not_eq_true, List.contains_iff_mem, List.mem_reverse]
    exact fun h => absurd (List.mem_takeWhile_imp h) (by decide)
  rw [← dropLast_lines_append _ hpadding, hsplit]

theorem getLast?_dropEndWhile {p : Char → Bool} {t : Text} {c : Char} (h : (t.dropEndWhile p).getLast? = some c) :
    p c = false := by
  rw [dropEndWhile, List.getLast?_reverse] at h
  have hhead := List.head?_dropWhile_not p t.reverse
  rw [h] at hhead
  simpa using hhead

end Text

/-! ### Plain documents -/

namespace Doc

mutual
/-- Whether no line of a document is literal and no text holds a newline. -/
def isPlain : Doc → Bool
  | .text t => !t.hasNewline
  | .concat parts | .fill parts => allPlain parts
  | .indent contents | .group contents _ => isPlain contents
  | .ifBreak broken flat => isPlain broken && isPlain flat
  | .line l => !l.literal
  | .breakParent | .stray _ => true

def allPlain : List Doc → Bool
  | [] => true
  | doc :: docs => isPlain doc && allPlain docs
end

theorem allPlain_iff {docs : List Doc} : allPlain docs = true ↔ ∀ doc ∈ docs, doc.isPlain = true := by
  induction docs with
  | nil => simp [allPlain]
  | cons doc docs ih => simp [allPlain, ih]

mutual
/-- Marking the groups that have to break changes neither texts nor lines. -/
theorem isPlain_settled (doc : Doc) : doc.settled.isPlain = doc.isPlain := by
  cases doc with
  | concat parts => rw [settled_concat, isPlain, isPlain, allPlain_settled]
  | fill parts => rw [settled_fill, isPlain, isPlain, allPlain_settled]
  | indent contents => rw [settled_indent, isPlain, isPlain, isPlain_settled]
  | group contents forced => rw [settled_group, isPlain, isPlain, isPlain_settled]
  | ifBreak broken flat => rw [settled_ifBreak, isPlain, isPlain, isPlain_settled broken, isPlain_settled flat]
  | text | line | breakParent | stray => rfl

theorem allPlain_settled (docs : List Doc) : allPlain (docs.map settled) = allPlain docs := by
  cases docs with
  | nil => rfl
  | cons doc docs => rw [List.map_cons, allPlain, allPlain, isPlain_settled, allPlain_settled]
end

end Doc

namespace Stage

variable {page : Page}

/-- What a plain command makes way for is plain. -/
theorem Opens.plain {c : Command} {new : List Command} (h : Opens c new) (hc : c.doc.isPlain = true) :
    ∀ d ∈ new, d.doc.isPlain = true := by
  cases h with
  | text | line | breakParent | skip => simp
  | concat =>
      rw [Doc.isPlain, Doc.allPlain_iff] at hc
      exact List.forall_mem_map.2 hc
  | indent | group =>
      rw [Doc.isPlain] at hc
      simpa using hc
  | fill hfront =>
      rw [Doc.isPlain, Doc.allPlain_iff] at hc
      have hfill : ∀ {parts : List Doc}, (∀ doc ∈ parts, doc.isPlain = true) → (Doc.fill parts).isPlain = true :=
        fun hparts => by rwa [Doc.isPlain, Doc.allPlain_iff]
      exact forall_mem_front hfill (map_doc_fillFront hfront) hc
  | ifBreak depth mode =>
      rw [Doc.isPlain, Bool.and_eq_true] at hc
      cases mode with
      | broken => simpa [Mode.choose] using hc.1
      | flat => simpa [Mode.choose] using hc.2

/-- All commands of a run that starts with plain ones are plain. -/
theorem Carries.plain {s s' : Stage} {cs : List Command} (h : Carries page s cs s')
    (hs : ∀ c ∈ s.stack, c.doc.isPlain = true) : ∀ c ∈ s'.stack, c.doc.isPlain = true := by
  induction h with
  | refl => exact hs
  | tail _ hstep ih =>
      obtain ⟨hc, hrest⟩ := List.forall_mem_cons.1 ih
      obtain ⟨new, hstack, hopens⟩ := hstep.opens
      rw [hstack]
      exact List.forall_mem_append.2 ⟨hopens.plain hc, hrest⟩

end Stage

/-! ### What stands on the lines -/

namespace Printed

/-- Whether what is printed is what was put on the page, except that every line that has ended lost its trailing
blanks. -/
structure Trims (put : Text) (p : Printed Text Int) : Prop where
  ended : p.text.lines.dropLast = put.lines.dropLast.map (Text.dropEndWhile isPadding)
  last : p.text.lastLine = put.lastLine

theorem trims_empty : Trims [] .empty := ⟨rfl, rfl⟩

variable {put : Text} {p : Printed Text Int}

theorem Trims.write (h : Trims put p) {t : Text} (ht : t.hasNewline = false) : Trims (put ++ t) (p.write t) where
  ended := by rw [text_write, Text.dropLast_lines_append _ ht, Text.dropLast_lines_append _ ht, h.ended]
  last := by rw [text_write, Text.lastLine_append, Text.lastLine_append, ht, h.last]

/-- A line break ends the line without its trailing blanks. -/
theorem Trims.breakLine (h : Trims put p) (page : Page) (depth : Nat) (mode : Mode) {l : Line}
    (hl : l.literal = false) : Trims (put ++ newLineText page depth) (p.breakLine page.ruler depth mode l) := by
  have hindentation := hasNewline_indentation page depth
  have htext : (p.breakLine page.ruler depth mode l).text =
      p.text.dropEndWhile isPadding ++ newLineText page depth := by
    rw [text_breakLine, hl]
    rfl
  constructor
  · -- blanks are dropped from all that is printed, which comes to the last line alone
    rw [htext, newLineText, Text.dropLast_lines_newline _ hindentation, Text.dropLast_lines_newline _ hindentation,
      Text.dropLast_lines_dropEndWhile, Text.lastLine_dropEndWhile, h.ended, h.last, List.map_append,
      List.map_singleton]
  · rw [htext, newLineText, Text.lastLine_append_newline, Text.lastLine_append_newline]

end Printed

namespace Stage

variable {page : Page}

/-- A plain command puts a text on the line, or ends the line and starts the next. -/
theorem Marks.trims {p q : Printed Text Int} {c : Command} (h : Marks page p c q) (hc : c.doc.isPlain = true)
    {put : Text} (hp : p.Trims put) : q.Trims (put ++ c.imprint page) := by
  cases h with
  | text depth mode t =>
      rw [Doc.isPlain, Bool.not_eq_true'] at hc
      exact hp.write hc
  | @flatLine depth l hl =>
      rw [Command.imprint_flatLine page depth hl, Printed.writeFlatLine_eq]
      exact hp.write (Printed.hasNewline_flatLine l)
  | @breakLine depth mode l hl =>
      rw [Doc.isPlain, Bool.not_eq_true'] at hc
      rw [Command.imprint_breakLine page depth hl, hc]
      exact hp.breakLine page depth mode hc
  | keeps htext hline =>
      rw [Command.imprint_of_ne page htext hline, List.append_nil]
      exact ⟨hp.ended, hp.last⟩

/-- Through all steps, the lines that have ended are what was put on them without trailing blanks. -/
theorem Carries.trims {doc : Doc} (hdoc : doc.isPlain = true) {cs : List Command} {s : Stage}
    (h : Carries page (start doc) cs s) : s.printed.Trims (Command.imprints page cs) := by
  induction h with
  | refl => exact Printed.trims_empty
  | @tail cs p c rest s' hcs hstep ih =>
      have hplain := hcs.plain (by simpa [start, Doc.isPlain_settled] using hdoc)
      rw [Command.imprints_concat]
      exact hstep.marks.trims (hplain c List.mem_cons_self) ih

end Stage

/-- No line but the last ends in a space or a tab, on every page with plain line ends, if a document holds no stray
values, no literal lines and no newlines in its texts. Nothing else is taken away: each line but the last is what the
commands of the run put on it without its trailing blanks, and the last one is all that they put on it. The text is put
together from pieces, and taking blanks from the end of pieces, whatever they are, takes just the trailing blanks from
their text. -/
theorem Page.render_trailingBlanks {doc : Doc} (hvalid : doc.isValid = true) (hplain : doc.isPlain = true)
    {page : Page} (hlf : page.lineEnd = .lf) :
    ∃ t cs q p, page.render doc = .ok t ∧
      (∀ line ∈ t.lines.dropLast, line.getLast? ≠ some ' ' ∧ line.getLast? ≠ some '\t') ∧
      Stage.Carries page (.start doc) cs ⟨q, []⟩ ∧
      t.lines.dropLast = (Command.imprints page cs).lines.dropLast.map (Text.dropEndWhile isPadding) ∧
      t.lastLine = (Command.imprints page cs).lastLine ∧
      printStack page.ruler (.empty : Printed Chunks Int) [⟨0, .broken, doc.settled⟩] = .ok p ∧ t = p.reversed.text ∧
      ∀ pieces, Chunks.text ⟨Chunks.trimPieces pieces⟩ = (Chunks.text ⟨pieces⟩).dropEndWhile isPadding := by
  obtain ⟨q, hruns, hrender⟩ := Stage.exists_runs_start page hvalid
  obtain ⟨cs, hcs⟩ := hruns.exists_carries
  obtain ⟨hended, hlast⟩ := hcs.trims hplain
  obtain ⟨p, hp, htext⟩ := exists_chunks hrender
  rw [hlf] at hrender htext
  have htext : q.text = p.reversed.text := by
    rwa [LineEnd.image, Text.withLineEnds_newline, Text.withLineEnds_newline] at htext
  refine ⟨q.text, cs, q, p, hrender.trans (congrArg _ q.text.withLineEnds_newline), ?_, hcs, hended, hlast, hp, htext,
    Chunks.text_trimPieces⟩
  intro line hline
  rw [hended] at hline
  obtain ⟨put, -, rfl⟩ := List.mem_map.1 hline
  constructor
  · intro h
    cases Text.getLast?_dropEndWhile h
  · intro h
    cases Text.getLast?_dropEndWhile h

/-- Trailing blanks of texts, of a line that is not broken and of a line that stays empty. -/
def Doc.draft : Doc :=
  .concat [.text ['a', ' ', '\t'], .indent (.concat [.hardLine, .hardLine,
    .grouped (.concat [.text ['b'], .spaceLine]), .text [' '], .hardLine, .text ['c', ' ']])]

theorem Page.render_trailingBlanks_draft :
    Doc.draft.isValid = true ∧ Doc.draft.isPlain = true ∧ Page.ruled.lineEnd = .lf ∧
      ∃ t, Page.ruled.render .draft = .ok t ∧ t.lines = [['a'], [], ['\t', 'b'], ['\t', 'c', ' ']] ∧
        ∀ line ∈ t.lines.dropLast, line.getLast? ≠ some ' ' ∧ line.getLast? ≠ some '\t' := by
  have hvalid : Doc.draft.isValid = true := by decide +kernel
  have hplain : Doc.draft.isPlain = true := by decide +kernel
  obtain ⟨t, cs, q, p, hrender, hlines, -⟩ := @render_trailingBlanks _ hvalid hplain .ruled rfl
  obtain ⟨⟨r, stack⟩, hr, htest⟩ := (Option.any_eq_true ..).1 (show ((Stage.start .draft).after .ruled 19).any
    (fun s => s.stack.isEmpty &&
      s.printed.text == ['a', '\n', '\n', '\t', 'b', '\n', '\t', 'c', ' ']) = true by decide +kernel)
  simp only [Bool.and_eq_true, List.isEmpty_iff, beq_iff_eq] at htest
  obtain ⟨rfl, htext⟩ := htest
  have hprinted := Stage.render_of_runs (Stage.runs_of_after hr)
  rw [hrender, htext] at hprinted
  have ht : t = ['a', '\n', '\n', '\t', 'b', '\n', '\t', 'c', ' '] := Except.ok.inj hprinted
  exact ⟨hvalid, hplain, rfl, t, hrender, by rw [ht]; rfl, hlines⟩

end XmlTidy
