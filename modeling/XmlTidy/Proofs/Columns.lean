import XmlTidy.Proofs.LineRoom

/-!
The column that printing goes by is the true one. It is counted up where a text or a blank is written and set anew
where a line is started, and nothing is ever taken from the line that is being written: blanks are
dropped only from a line that ends. So at every stage the column is the width of what stands behind the last
newline. The units of indentation that the line was started with count as wide as the page has them, even if they
are tabs, and everything else counts as it is displayed, a tab in a text included.
-/

namespace XmlTidy

/-! ### Widths -/

namespace Width

/-- The columns of a character as the tables have them, ASCII or not. -/
def ofTables (c : Char) : Nat :=
  if inRanges combiningRanges c then 0
  else if inRanges wideRanges c || inRanges gaps c then 2
  else 1

theorem inRanges_of_ascii {ranges : List (Nat × Nat)} (h : ranges.all (128 ≤ ·.1) = true) {c : Char}
    (hc : c.toNat < 128) : inRanges ranges c = false := by
  rw [inRanges, List.any_eq_false]
  intro range hrange
  have hlow : 128 ≤ range.1 := by simpa using List.all_eq_true.1 h range hrange
  have hlt : ¬ range.1 ≤ c.toNat := by omega
  simp [hlt]

/-- No ASCII character is combining or wide. -/
theorem ofTables_of_ascii {c : Char} (hc : c.toNat < 128) : ofTables c = 1 := by
  have hcombining : inRanges combiningRanges c = false := inRanges_of_ascii (by decide +kernel) hc
  have hwide : inRanges wideRanges c = false := inRanges_of_ascii (by decide +kernel) hc
  have hgaps : inRanges gaps c = false := inRanges_of_ascii (by decide +kernel) hc
  simp [ofTables, hcombining, hwide, hgaps]

theorem ofTables_eq_ofChar (c : Char) : ofTables c = ofChar c := by
  rw [ofChar]
  split
  · next hc => exact ofTables_of_ascii hc
  · rfl

end Width

namespace Text

/-- The columns of a text, counted character by character from the tables. -/
def tabled (t : Text) : Nat := t.foldl (fun n c => n + Width.ofTables c) 0

theorem width_eq_tabled (t : Text) : t.width = t.tabled := by
  simp only [width, tabled, Width.ofTables_eq_ofChar]

/-- An ASCII text is as wide as it is long. -/
theorem width_of_ascii {t : Text} (h : ∀ c ∈ t, c.toNat < 128) : t.width = t.length := by
  induction t with
  | nil => rfl
  | cons c t ih =>
      rw [List.forall_mem_cons] at h
      have hc : width [c] = 1 := by simp [width, Width.ofChar, h.1]
      calc width (c :: t) = width [c] + width t := width_append [c] t
        _ = t.length + 1 := by rw [hc, ih h.2, Nat.add_comm]

end Text

/-! ### What commands put on the page -/

namespace Command

open Printed

/-- What carrying out a command puts on the page. -/
def imprint (page : Page) : Command → Text
  | ⟨_, _, .text t⟩ => t
  | ⟨depth, mode, .line l⟩ =>
      if mode = .flat && !l.hard then flatLine l else if l.literal then ['\n'] else newLineText page depth
  | _ => []

/-- What carrying out some commands puts on the page, one behind the other. -/
def imprints (page : Page) (cs : List Command) : Text := cs.flatMap fun c => c.imprint page

/-- The units of indentation that a command puts behind a newline. -/
def units : Command → Nat
  | ⟨depth, _, .line l⟩ => if l.literal then 0 else depth
  | _ => 0

/-- The units of indentation in front of what some commands leave to be written on: those of the last one that
starts a line. -/
def margin (page : Page) (cs : List Command) : Nat :=
  cs.foldl (fun n c => if (c.imprint page).hasNewline then c.units else n) 0

variable (page : Page)

theorem margin_concat (cs : List Command) (c : Command) :
    margin page (cs ++ [c]) = if (c.imprint page).hasNewline then c.units else margin page cs := by
  rw [margin, List.foldl_append, ← margin]
  rfl

theorem imprints_concat (cs : List Command) (c : Command) :
    imprints page (cs ++ [c]) = imprints page cs ++ c.imprint page := by
  simp [imprints]

theorem imprint_flatLine (depth : Nat) {l : Line} (h : l.hard = false) :
    imprint page ⟨depth, .flat, .line l⟩ = flatLine l := by
  simp [imprint, h]

theorem imprint_breakLine (depth : Nat) {mode : Mode} {l : Line} (h : mode = .flat → l.hard = true) :
    imprint page ⟨depth, mode, .line l⟩ = if l.literal then ['\n'] else newLineText page depth := by
  rw [imprint, if_neg]
  simpa using h

theorem imprint_of_ne {c : Command} (htext : ∀ t, c.doc ≠ .text t) (hline : ∀ l, c.doc ≠ .line l) :
    c.imprint page = [] := by
  obtain ⟨depth, mode, doc⟩ := c
  cases doc with
  | text t => exact absurd rfl (htext t)
  | line l => exact absurd rfl (hline l)
  | _ => rfl

end Command

namespace Stage

variable {page : Page} {s s' : Stage}

/-- Any number of steps, with the commands that they carry out. -/
inductive Carries (page : Page) (s : Stage) : List Command → Stage → Prop where
  | refl : Carries page s [] s
  | tail {cs : List Command} {p : Printed Text Int} {c : Command} {rest : List Command} {s' : Stage}
      (h : Carries page s cs ⟨p, c :: rest⟩) (hstep : Step page ⟨p, c :: rest⟩ s') : Carries page s (cs ++ [c]) s'

theorem Runs.exists_carries (h : Runs page s s') : ∃ cs, Carries page s cs s' := by
  induction h with
  | refl => exact ⟨[], .refl⟩
  | @tail s₁ s₂ _ hstep ih =>
      obtain ⟨cs, hcs⟩ := ih
      obtain ⟨p, stack⟩ := s₁
      cases stack with
      | nil => cases hstep
      | cons c rest => exact ⟨cs ++ [c], .tail hcs hstep⟩

end Stage

/-! ### Columns -/

namespace Printed

/-- Whether the column is that of a line with some units of indentation: each of them takes up `tabWidth` columns, and
what stands behind them as many as it is wide. -/
def Stands (page : Page) (units : Nat) (p : Printed Text Int) : Prop :=
  ∃ rest, p.text.lastLine = page.indentation units ++ rest ∧ p.column = units * page.tabWidth + rest.width

theorem stands_empty (page : Page) : Stands page 0 .empty :=
  ⟨[], by simp [empty_text, text, Text.lastLine, indentation_zero], by simp [empty_text, Text.width]⟩

/-- A text is written on where the line stands, or starts a line without indentation. -/
theorem Stands.write {page : Page} {units : Nat} {p : Printed Text Int} (h : Stands page units p) (t : Text) :
    Stands page (if t.hasNewline then 0 else units) (p.write t) := by
  obtain ⟨rest, hline, hcolumn⟩ := h
  rw [Stands, text_write, Text.lastLine_append]
  cases ht : t.hasNewline with
  | true =>
      refine ⟨t.lastLine, ?_, ?_⟩
      · simp [indentation_zero]
      · simp [Printed.write_text, ht]
  | false =>
      refine ⟨rest ++ t, ?_, ?_⟩
      · simp [hline]
      · rw [column_write_line ht, hcolumn, Text.width_append]
        simp [Int.add_assoc]

/-- A line break starts a line with its own indentation, whatever blanks the line before loses. -/
theorem stands_breakLine (page : Page) (depth : Nat) (mode : Mode) (l : Line) (p : Printed Text Int) :
    Stands page (if l.literal then 0 else depth) (p.breakLine page.ruler depth mode l) := by
  rw [Stands, text_breakLine]
  refine ⟨[], ?_, ?_⟩
  · split
    · simp [Text.lastLine, indentation_zero]
    · rw [Text.lastLine_append, if_pos (hasNewline_newLineText page depth), lastLine_newLineText, List.append_nil]
  · simp only [breakLine_text]
    split <;> simp [Page.ruler, Text.width]

end Printed

namespace Stage

variable {page : Page}

/-- A command that puts a newline on the page starts a line with its own units of indentation, and any other goes on
with the line. -/
theorem Marks.stands {p q : Printed Text Int} {c : Command} (h : Marks page p c q) {units : Nat}
    (hp : p.Stands page units) : q.Stands page (if (c.imprint page).hasNewline then c.units else units) := by
  cases h with
  | text depth mode t => exact hp.write t
  | @flatLine depth l hl =>
      have hwrite := hp.write (Printed.flatLine l)
      rw [Command.imprint_flatLine page depth hl, Printed.writeFlatLine_eq]
      rwa [Printed.hasNewline_flatLine] at hwrite ⊢
  | @breakLine depth mode l hl =>
      -- what the line before loses does not matter, since the column starts anew
      have hnewline : Text.hasNewline (if l.literal then ['\n'] else Printed.newLineText page depth) = true := by
        split <;> rfl
      rw [Command.imprint_breakLine page depth hl, hnewline]
      exact Printed.stands_breakLine ..
  | keeps htext hline =>
      rw [Command.imprint_of_ne page htext hline]
      exact hp

/-- The column is true after every command that is carried out. -/
theorem Carries.stands {doc : Doc} {cs : List Command} {s : Stage} (h : Carries page (start doc) cs s) :
    s.printed.Stands page (Command.margin page cs) := by
  induction h with
  | refl => exact Printed.stands_empty page
  | @tail cs p c rest s' _ hstep ih =>
      rw [Command.margin_concat]
      exact hstep.marks.stands ih

end Stage

/-- The column is the true column, on every page and at every stage of printing a document without stray values: it is
the width of what has been printed behind the last newline, where the units of indentation that the line was started
with count `tabWidth` columns each and everything else counts as it is displayed. Widths add up, and the characters of
an ASCII text can be counted instead of looked up. -/
theorem Page.column_eq_width {doc : Doc} (h : doc.isValid = true) (page : Page) :
    (∃ q, Stage.Runs page (.start doc) ⟨q, []⟩ ∧
        page.render doc = .ok (q.text.withLineEnds page.lineEnd.image)) ∧
      (∀ s, Stage.Runs page (.start doc) s →
        (∃ cs, Stage.Carries page (.start doc) cs s) ∧
          ∀ cs, Stage.Carries page (.start doc) cs s →
            ∃ rest, s.printed.text.lastLine = page.indentation (Command.margin page cs) ++ rest ∧
              s.printed.column = Command.margin page cs * page.tabWidth + rest.width) ∧
      (∀ t u : Text, Text.width (t ++ u) = t.width + u.width) ∧
      ∀ t : Text, t.width = t.tabled ∧ ((∀ c ∈ t, c.toNat < 128) → t.width = t.length) := by
  refine ⟨Stage.exists_runs_start page h, ?_, Text.width_append, ?_⟩
  · intro s hs
    exact ⟨hs.exists_carries, fun cs hcs => hcs.stands⟩
  · intro t
    exact ⟨t.width_eq_tabled, Text.width_of_ascii⟩

/-- A page on which lines are indented by tabs of five columns. -/
def Page.ruled : Page := { width := 13, tabWidth := 5, useTabs := true }

/-- A line with a wide character that is indented, and a line that a text starts with a tab of its own. -/
def Doc.memo : Doc :=
  .concat [.text ['a', ' '], .indent (.concat [.hardLine, .text ['漢'],
    .grouped (.concat [.spaceLine, .text ['b']]), .text ['\n', '\t', 'c']])]

/-- The tab of the indentation takes up five columns, the tab of the text one. -/
theorem Page.column_eq_width_memo :
    Doc.memo.isValid = true ∧
      (∃ s cs, Stage.Carries .ruled (.start .memo) cs s ∧ Command.margin .ruled cs = 1 ∧
        s.printed.text.lastLine = ['\t', '漢', ' ', 'b'] ∧ s.printed.column = 9) ∧
      ∃ s cs, Stage.Carries .ruled (.start .memo) cs s ∧ Command.margin .ruled cs = 0 ∧
        s.printed.text.lastLine = ['\t', 'c'] ∧ s.printed.column = 2 := by
  have hvalid : Doc.memo.isValid = true := by decide +kernel
  have htab : Page.ruled.tabWidth = 5 := rfl
  obtain ⟨-, htrue, -⟩ := column_eq_width hvalid .ruled
  refine ⟨hvalid, ?_, ?_⟩
  · obtain ⟨s, hs, htest⟩ := (Option.any_eq_true ..).1 (show ((Stage.start .memo).after .ruled 12).any
      (fun s => s.printed.text.lastLine == ['\t', '漢', ' ', 'b'] && s.printed.column == 9) = true by decide +kernel)
    simp only [Bool.and_eq_true, beq_iff_eq] at htest
    obtain ⟨⟨cs, hcs⟩, hcolumn⟩ := htrue s (Stage.runs_of_after hs)
    obtain ⟨rest, hline, hwidth⟩ := hcolumn cs hcs
    rw [htest.2, htab] at hwidth
    refine ⟨s, cs, hcs, ?_, htest⟩
    by_contra hmargin
    -- without indentation the line takes up five columns only
    have hzero : Command.margin .ruled cs = 0 := by omega
    rw [htest.1, hzero, Printed.indentation_zero, List.nil_append] at hline
    rw [hzero, ← hline] at hwidth
    exact absurd hwidth (by decide +kernel)
  · obtain ⟨s, hs, htest⟩ := (Option.any_eq_true ..).1 (show ((Stage.start .memo).after .ruled 13).any
      (fun s => s.printed.text.lastLine == ['\t', 'c'] && s.printed.column == 2) = true by decide +kernel)
    simp only [Bool.and_eq_true, beq_iff_eq] at htest
    obtain ⟨⟨cs, hcs⟩, hcolumn⟩ := htrue s (Stage.runs_of_after hs)
    obtain ⟨rest, hline, hwidth⟩ := hcolumn cs hcs
    rw [htest.2, htab] at hwidth
    exact ⟨s, cs, hcs, by omega, htest⟩

end XmlTidy
