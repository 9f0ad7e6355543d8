import XmlTidy.Proofs.LineRoom

/-!
A hard line separates documents completely. What is printed in front of it does not depend on what stands behind
it, since measuring stops at the line, and what is printed behind it does not depend on what stands in front: it
starts at the first column, trailing blanks are not taken away across a newline, and no group is to be measured
again. The last needs that no hard line is printed in flat mode, and so that a `breakParent` follows every hard
line and parts of fills hold hard lines only in groups of their own.
-/

namespace XmlTidy

namespace Doc

/-! ### Hard lines in flat mode -/

mutual
/-- Whether a document holds a hard line outside of groups. -/
def hasBareBreak : Doc → Bool
  | .concat parts | .fill parts => anyBareBreak parts
  | .indent contents => hasBareBreak contents
  | .ifBreak broken flat => hasBareBreak broken || hasBareBreak flat
  | .line l => l.hard
  | .text _ | .group _ _ | .breakParent | .stray _ => false

def anyBareBreak : List Doc → Bool
  | [] => false
  | doc :: docs => hasBareBreak doc || anyBareBreak docs
end

mutual
/-- Whether a `breakParent` follows every hard line, and no part of a fill holds a hard line outside of groups. -/
def hasPairedBreaks : Doc → Bool
  | .concat parts => allPairedBreaks parts
  | .fill parts => allPairedBreaks parts && !anyBareBreak parts
  | .indent contents | .group contents _ => hasPairedBreaks contents
  | .ifBreak broken flat => hasPairedBreaks broken && hasPairedBreaks flat
  | .line l => !l.hard
  | .text _ | .breakParent | .stray _ => true

def allPairedBreaks : List Doc → Bool
  | [] => true
  | doc :: docs => (hasPairedBreaks doc || (doc.isHardLine && docs.any isBreakParent)) && allPairedBreaks docs
end

mutual
/-- Whether no hard line is printed in flat mode when a document whose groups are marked is printed in a mode. -/
def isCalm (mode : Mode) : Doc → Bool
  | .concat parts => allCalm mode parts
  | .fill parts => allCalm .flat parts
  | .indent contents => isCalm mode contents
  | .group contents forced => isCalm (if forced then .broken else .flat) contents
  | .ifBreak broken flat => isCalm mode broken && isCalm mode flat
  | .line l => mode = .broken || !l.hard
  | .text _ | .breakParent | .stray _ => true

def allCalm (mode : Mode) : List Doc → Bool
  | [] => true
  | doc :: docs => isCalm mode doc && allCalm mode docs
end

theorem allCalm_iff {mode : Mode} {docs : List Doc} :
    allCalm mode docs = true ↔ ∀ doc ∈ docs, doc.isCalm mode = true := by
  induction docs with
  | nil => simp [allCalm]
  | cons doc docs ih => simp [allCalm, ih]

mutual
/-- What is calm in flat mode is calm in every mode. -/
theorem isCalm_of_flat {mode : Mode} {doc : Doc} (h : doc.isCalm .flat = true) : doc.isCalm mode = true := by
  cases doc with
  | concat parts =>
      rw [isCalm] at h ⊢
      exact allCalm_of_flat h
  | indent contents =>
      rw [isCalm] at h ⊢
      exact isCalm_of_flat h
  | ifBreak broken flat =>
      rw [isCalm, Bool.and_eq_true] at h ⊢
      exact ⟨isCalm_of_flat h.1, isCalm_of_flat h.2⟩
  | line l =>
      have hl : l.hard = false := by simpa [isCalm] using h
      simp [isCalm, hl]
  | fill parts | group contents forced =>
      rw [isCalm] at h ⊢
      exact h
  | text | breakParent | stray => rw [isCalm]

theorem allCalm_of_flat {mode : Mode} {docs : List Doc} (h : allCalm .flat docs = true) :
    allCalm mode docs = true := by
  cases docs with
  | nil => rw [allCalm]
  | cons doc docs =>
      rw [allCalm, Bool.and_eq_true] at h ⊢
      exact ⟨isCalm_of_flat h.1, allCalm_of_flat h.2⟩
end

mutual
/-- Where no group around has to break, there is no hard line. -/
theorem hasBareBreak_of_not_forces {doc : Doc} (h : doc.hasPairedBreaks = true) (hforces : doc.forces = false) :
    doc.hasBareBreak = false := by
  cases doc with
  | concat parts =>
      rw [hasPairedBreaks] at h
      rw [forces_concat] at hforces
      rw [hasBareBreak]
      exact anyBareBreak_of_not_forces h hforces
  | fill parts =>
      rw [hasPairedBreaks, Bool.and_eq_true] at h
      rw [hasBareBreak]
      simpa using h.2
  | indent contents =>
      rw [hasPairedBreaks] at h
      rw [hasBareBreak]
      exact hasBareBreak_of_not_forces h hforces
  | ifBreak broken flat =>
      rw [hasPairedBreaks, Bool.and_eq_true] at h
      rw [forces_ifBreak, Bool.or_eq_false_iff] at hforces
      rw [hasBareBreak, hasBareBreak_of_not_forces h.1 hforces.1, hasBareBreak_of_not_forces h.2 hforces.2]
      rfl
  | line l =>
      rw [hasPairedBreaks] at h
      simpa [hasBareBreak] using h
  | text | group | breakParent | stray => rw [hasBareBreak]

theorem anyBareBreak_of_not_forces {docs : List Doc} (h : allPairedBreaks docs = true)
    (hforces : docs.any forces = false) : anyBareBreak docs = false := by
  cases docs with
  | nil => rw [anyBareBreak]
  | cons doc docs =>
      rw [allPairedBreaks, Bool.and_eq_true, Bool.or_eq_true] at h
      rw [List.any_cons, Bool.or_eq_false_iff] at hforces
      rw [anyBareBreak, anyBareBreak_of_not_forces h.2 hforces.2, Bool.or_false]
      rcases h.1 with hpaired | hhard
      · exact hasBareBreak_of_not_forces hpaired hforces.1
      · rw [Bool.and_eq_true] at hhard
        rw [forces_of_isBreakParent hhard.2] at hforces
        cases hforces.2
end

mutual
/-- Marking the groups that have to break calms a document in which hard lines are paired. -/
theorem isCalm_settled {doc : Doc} (h : doc.hasPairedBreaks = true) :
    doc.settled.isCalm .broken = true ∧ (doc.hasBareBreak = false → doc.settled.isCalm .flat = true) := by
  cases doc with
  | concat parts =>
      rw [hasPairedBreaks] at h
      rw [settled_concat, isCalm, isCalm, hasBareBreak]
      exact allCalm_settled h
  | fill parts =>
      rw [hasPairedBreaks, Bool.and_eq_true, Bool.not_eq_true'] at h
      have hflat := (allCalm_settled h.1).2 h.2
      rw [settled_fill, isCalm, isCalm]
      exact ⟨hflat, fun _ => hflat⟩
  | indent contents =>
      rw [hasPairedBreaks] at h
      rw [settled_indent, isCalm, isCalm, hasBareBreak]
      exact isCalm_settled h
  | group contents forced =>
      rw [hasPairedBreaks] at h
      obtain ⟨hbroken, hflat⟩ := isCalm_settled h
      have hcontents : contents.settled.isCalm (if contents.forces || forced then .broken else .flat) = true := by
        split
        · exact hbroken
        · next hforces =>
            rw [Bool.not_eq_true, Bool.or_eq_false_iff] at hforces
            exact hflat (hasBareBreak_of_not_forces h hforces.1)
      rw [settled_group, isCalm, isCalm]
      exact ⟨hcontents, fun _ => hcontents⟩
  | ifBreak broken flat =>
      rw [hasPairedBreaks, Bool.and_eq_true] at h
      obtain ⟨hbroken, hflat⟩ := isCalm_settled h.1
      obtain ⟨hbroken', hflat'⟩ := isCalm_settled h.2
      rw [settled_ifBreak, isCalm, isCalm, hbroken, hbroken', hasBareBreak, Bool.or_eq_false_iff]
      refine ⟨rfl, fun hbare => ?_⟩
      rw [hflat hbare.1, hflat' hbare.2]
      rfl
  | line l =>
      rw [hasPairedBreaks] at h
      simp [settled_line, isCalm, h]
  | text t => simp [settled_text, isCalm]
  | breakParent | stray => exact ⟨rfl, fun _ => rfl⟩

theorem allCalm_settled {docs : List Doc} (h : allPairedBreaks docs = true) :
    allCalm .broken (docs.map settled) = true ∧
      (anyBareBreak docs = false → allCalm .flat (docs.map settled) = true) := by
  cases docs with
  | nil => simp [allCalm]
  | cons doc docs =>
      rw [allPairedBreaks, Bool.and_eq_true, Bool.or_eq_true] at h
      obtain ⟨hdoc, hdocs⟩ := h
      obtain ⟨hbroken, hflat⟩ := allCalm_settled hdocs
      rw [List.map_cons, allCalm, allCalm, anyBareBreak, Bool.or_eq_false_iff, hbroken]
      rcases hdoc with hpaired | hhard
      · obtain ⟨hbroken', hflat'⟩ := isCalm_settled hpaired
        rw [hbroken']
        refine ⟨rfl, fun hbare => ?_⟩
        rw [hflat' hbare.1, hflat hbare.2]
        rfl
      · rw [Bool.and_eq_true] at hhard
        cases doc with
        | line l =>
            refine ⟨by simp [settled_line, isCalm], fun hbare => ?_⟩
            rw [hasBareBreak, show l.hard = true from hhard.1] at hbare
            cases hbare.1
        | _ => cases hhard.1
end

end Doc

/-! ### Measuring stops at a hard line -/

open Doc Command

/-- Commands behind which measuring does not go on are as good as none. -/
theorem fits_append {must : Bool} {tail : List Command} (htail : Tells must tail .clear) (width : Int)
    (stack : List Command) : fits must width (stack ++ tail) = fits must width stack := by
  have htail' : ∀ w, Sight.scan must w (sights tail) = .ok (decide (0 ≤ w)) := by
    intro w
    rw [← fits_eq_scan, htail]
    rfl
  rw [fits_eq_scan, fits_eq_scan, sights_append]
  induction sights stack generalizing width with
  | nil => rw [List.nil_append, Sight.scan, htail']
  | cons sight rest ih => cases sight <;> rw [List.cons_append, Sight.scan, Sight.scan] <;> simp only [ih]

theorem tells_hardLine (must : Bool) (depth : Nat) (mode : Mode) {l : Line} (hl : l.hard = true) (docs : List Doc)
    (rest : List Command) : Tells must (⟨depth, mode, .concat (.line l :: docs)⟩ :: rest) .clear := by
  refine tells_of_nonneg (by simp [Ahead.clear]) fun w hw => ?_
  rw [fits.eq_def, if_pos hw]
  show fits must w (⟨depth, mode, .line l⟩ :: _) = _
  rw [fits.eq_def, if_pos hw]
  simp [hl, Ahead.clear, hw]

/-! ### A step among other commands -/

/-- What has been printed, behind an earlier text. -/
def Printed.behind (base : Text) (p : Printed Text Int) : Printed Text Int := { p with reversed := p.reversed ++ base }

namespace Printed

variable {base : Text} (p : Printed Text Int)

theorem behind_nil : p.behind [] = p := by
  rw [behind, List.append_nil]

theorem write_behind (t : Text) : (p.behind base).write t = (p.write t).behind base := by
  simp [write_text, behind]

theorem writeFlatLine_behind (l : Line) : (p.behind base).writeFlatLine l = (p.writeFlatLine l).behind base := by
  rw [writeFlatLine_eq, writeFlatLine_eq, write_behind]

/-- Trailing blanks are not taken away from an earlier text that has none. -/
theorem breakLine_behind (hbase : base.dropWhile isPadding = base) (page : Page) (depth : Nat) (mode : Mode)
    (l : Line) :
    (p.behind base).breakLine page.ruler depth mode l = (p.breakLine page.ruler depth mode l).behind base := by
  have hdrop : (p.reversed ++ base).dropWhile isPadding = p.reversed.dropWhile isPadding ++ base := by
    rw [List.dropWhile_append, hbase]
    split
    · next hempty => rw [List.isEmpty_iff.1 hempty, List.nil_append]
    · rfl
  simp only [breakLine_text, behind]
  split
  · rfl
  · rw [hdrop]
    simp

end Printed

namespace Stage

variable {page : Page} {base : Text} {tail : List Command} {s s' : Stage}

/-- A stage behind an earlier text and in front of other commands. -/
def within (base : Text) (tail : List Command) (s : Stage) : Stage :=
  ⟨s.printed.behind base, s.stack ++ tail⟩

/-- What a command does is the same behind a text without trailing blanks and in front of commands that measuring
stops at. -/
theorem next_within (hbase : base.dropWhile isPadding = base) (htail : Tells false tail .clear) (p : Printed Text Int)
    (c : Command) (rest : List Command) :
    (within base tail ⟨p, c :: rest⟩).next page = (next page ⟨p, c :: rest⟩).map (Option.map (within base tail)) := by
  obtain ⟨depth, mode, doc⟩ := c
  cases doc with
  | text t =>
      simp only [next, within, List.cons_append, p.write_behind]
      rfl
  | concat parts => simp [next, within, push, Except.map]
  | indent contents | breakParent | stray value => rfl
  | group contents forced =>
      have hfits := fits_append htail (page.width - p.column) (⟨depth, .flat, contents⟩ :: rest)
      simp only [next, within, List.cons_append, Printed.behind] at hfits ⊢
      by_cases hflat : (mode = .flat && !p.remeasure) = true
      · rw [if_pos hflat, if_pos hflat]
        rfl
      · rw [if_neg hflat, if_neg hflat, hfits]
        cases forced with
        | true => rfl
        | false => cases fits false (page.width - p.column) (⟨depth, .flat, contents⟩ :: rest) <;> rfl
  | fill parts =>
      simp only [next, within, List.cons_append, Printed.behind]
      cases fillFront (page.width - p.column) depth mode parts with
      | error e => rfl
      | ok front => simp [Except.map, within, Printed.behind]
  | ifBreak broken flat =>
      simp only [next, within, List.cons_append]
      split <;> rfl
  | line l =>
      simp only [next, within, List.cons_append, p.writeFlatLine_behind, p.breakLine_behind hbase]
      split <;> rfl

/-- So is all that a run prints. -/
theorem Runs.within (hbase : base.dropWhile isPadding = base) (htail : Tells false tail .clear)
    (h : Runs page s s') : Runs page (s.within base tail) (s'.within base tail) := by
  refine h.lift _ fun s s' hstep => ?_
  obtain ⟨p, stack⟩ := s
  cases stack with
  | nil => cases hstep
  | cons c rest =>
      have hnext : next page ⟨p, c :: rest⟩ = .ok (some s') := hstep
      show (Stage.within base tail ⟨p, c :: rest⟩).next page = .ok (some (s'.within base tail))
      rw [next_within hbase htail, hnext]
      rfl

/-! ### No group is measured again -/

/-- Stages from which no hard line is printed in flat mode. -/
structure Calm (s : Stage) : Prop where
  stack : ∀ c ∈ s.stack, c.doc.isCalm c.mode = true
  remeasure : s.printed.remeasure = false

theorem calm_start {doc : Doc} (h : doc.hasPairedBreaks = true) : Calm (start doc) where
  stack := by simpa [start] using (isCalm_settled h).1
  remeasure := rfl

/-- What a calm command makes way for is calm. -/
theorem Opens.calm {c : Command} {new : List Command} (h : Opens c new) (hc : c.doc.isCalm c.mode = true) :
    ∀ d ∈ new, d.doc.isCalm d.mode = true := by
  cases h with
  | text | line | breakParent | skip => simp
  | concat depth mode parts =>
      rw [isCalm, allCalm_iff] at hc
      exact List.forall_mem_map.2 hc
  | indent =>
      rw [isCalm] at hc
      simpa using hc
  | @group _ _ _ forced inner hforced =>
      rw [isCalm] at hc
      cases forced with
      | true =>
          obtain rfl : inner = .broken := hforced rfl
          simpa using hc
      | false => simpa using isCalm_of_flat hc
  | fill hfront =>
      rw [isCalm, allCalm_iff] at hc
      have hfill : ∀ {parts : List Doc}, (∀ doc ∈ parts, doc.isCalm .flat = true) →
          (Doc.fill parts).isCalm .flat = true := fun hparts => by rwa [isCalm, allCalm_iff]
      intro d hd
      exact isCalm_of_flat (forall_mem_front hfill (map_doc_fillFront hfront) hc d hd)
  | ifBreak depth mode =>
      rw [isCalm, Bool.and_eq_true] at hc
      cases mode with
      | broken => simpa [Mode.choose] using hc.1
      | flat => simpa [Mode.choose] using hc.2

/-- Only a hard line in flat mode makes the next group be measured again. -/
theorem Step.remeasure {p : Printed Text Int} {c : Command} {rest : List Command} (h : Step page ⟨p, c :: rest⟩ s')
    (hp : p.remeasure = false) (hc : c.doc.isCalm c.mode = true) : s'.printed.remeasure = false := by
  have hmarks := h.marks
  generalize s'.printed = q at hmarks ⊢
  cases hmarks with
  | text => exact hp
  | flatLine => rwa [Printed.writeFlatLine_eq]
  | @breakLine depth mode l hl =>
      have hmode : mode = .broken := by
        cases mode with
        | broken => rfl
        | flat => simp [isCalm, hl rfl] at hc
      simp only [Printed.breakLine_text, hmode]
      split <;> simp [hp]
  | keeps _ _ hremeasure => simpa [hp] using hremeasure

theorem Calm.step (hs : Calm s) (h : Step page s s') : Calm s' := by
  obtain ⟨p, stack⟩ := s
  cases stack with
  | nil => cases h
  | cons c rest =>
      obtain ⟨hc, hrest⟩ := List.forall_mem_cons.1 hs.stack
      obtain ⟨new, hstack, hopens⟩ := h.opens
      refine ⟨?_, h.remeasure hs.remeasure hc⟩
      rw [hstack]
      exact List.forall_mem_append.2 ⟨hopens.calm hc, hrest⟩

theorem Calm.runs (hs : Calm s) (h : Runs page s s') : Calm s' := by
  induction h with
  | refl => exact hs
  | tail _ hstep ih => exact ih.step hstep

/-! ### Both sides of a hard line -/

/-- What stands above a line break, in reverse. -/
def above (l : Line) (q : Printed Text Int) : Text :=
  '\n' :: if l.literal then q.reversed else q.reversed.dropWhile isPadding

/-- A line break at the top starts a new page, as far as what follows can tell. -/
theorem breakLine_eq_behind {q : Printed Text Int} (hq : q.remeasure = false) (page : Page) (l : Line) :
    q.breakLine page.ruler 0 .broken l = Printed.empty.behind (above l q) := by
  simp only [Printed.breakLine_text, Printed.behind, Printed.empty_text, above, Page.ruler, Printed.indentation_zero, hq]
  split <;> simp

theorem runs_breakLine {q : Printed Text Int} (hq : q.remeasure = false) (l : Line) (b : Doc) :
    Runs page ⟨q, [⟨0, .broken, .concat [.line l, .breakParent]⟩, ⟨0, .broken, b.settled⟩]⟩
      ((start b).within (above l q) []) := by
  have hconcat : Step page ⟨q, [⟨0, .broken, .concat [.line l, .breakParent]⟩, ⟨0, .broken, b.settled⟩]⟩
      ⟨q, [⟨0, .broken, .line l⟩, ⟨0, .broken, .breakParent⟩, ⟨0, .broken, b.settled⟩]⟩ := rfl
  have hline : Step page ⟨q, [⟨0, .broken, .line l⟩, ⟨0, .broken, .breakParent⟩, ⟨0, .broken, b.settled⟩]⟩
      ⟨Printed.empty.behind (above l q), [⟨0, .broken, .breakParent⟩, ⟨0, .broken, b.settled⟩]⟩ := by
    simp [Step, next, breakLine_eq_behind hq]
  have hparent : Step page ⟨Printed.empty.behind (above l q), [⟨0, .broken, .breakParent⟩, ⟨0, .broken, b.settled⟩]⟩
      ((start b).within (above l q) []) := rfl
  exact .head hconcat (.head hline (.single hparent))

/-- Printing goes through the first document as if it were alone, ends the line, and goes through the second one as
if that were alone. -/
theorem runs_separated {a b : Doc} (ha : a.hasPairedBreaks = true) {l : Line} (hl : l.hard = true)
    {q r : Printed Text Int} (hq : Runs page (start a) ⟨q, []⟩) (hr : Runs page (start b) ⟨r, []⟩) :
    Runs page (start (.concat [a, .concat [.line l, .breakParent], b])) ⟨r.behind (above l q), []⟩ := by
  have hopens : Step page (start (.concat [a, .concat [.line l, .breakParent], b])) ((start a).within []
      [⟨0, .broken, .concat [.line l, .breakParent]⟩, ⟨0, .broken, b.settled⟩]) := by
    rw [start, settled_concat, List.map_cons, List.map_cons, settled_concat]
    rfl
  have htells := tells_hardLine false 0 .broken hl [.breakParent] [⟨0, .broken, b.settled⟩]
  have hfirst := @Runs.within page [] _ _ _ rfl htells hq
  rw [show within [] _ ⟨q, []⟩ = ⟨q, _⟩ by rw [within, Printed.behind_nil, List.nil_append]] at hfirst
  have hbreak := @runs_breakLine page q ((calm_start ha).runs hq).remeasure l b
  have hsecond := @Runs.within page (above l q) [] _ _ rfl (tells_nil false) hr
  exact (Relation.ReflTransGen.head hopens hfirst).trans (hbreak.trans hsecond)

end Stage

/-- A hard line separates documents completely, on every page with plain line ends: each of the two is printed as it
is alone, with the trailing blanks of the first one taken away by a hard line and kept by a literal one. Only the
first one has to have its hard lines paired. -/
theorem Page.render_hardLine {a b : Doc} (ha : a.isValid = true) (hpaired : a.hasPairedBreaks = true)
    (hb : b.isValid = true) {page : Page} (hlf : page.lineEnd = .lf) :
    ∃ s t, page.render a = .ok s ∧ page.render b = .ok t ∧
      page.render (.concat [a, .hardLine, b]) = .ok (s.dropEndWhile isPadding ++ '\n' :: t) ∧
      page.render (.concat [a, .literalLine, b]) = .ok (s ++ '\n' :: t) := by
  have hlineEnd : ∀ t : Text, t.withLineEnds page.lineEnd.image = t := fun t => by
    rw [hlf]
    exact t.withLineEnds_newline
  obtain ⟨q, hq, hrenderA⟩ := Stage.exists_runs_start page ha
  obtain ⟨r, hr, hrenderB⟩ := Stage.exists_runs_start page hb
  rw [hlineEnd] at hrenderA hrenderB
  refine ⟨q.text, r.text, hrenderA, hrenderB, ?_, ?_⟩
  · rw [Doc.hardLine, Stage.render_of_runs (Stage.runs_separated hpaired rfl hq hr), hlineEnd]
    simp [Printed.text, Printed.behind, Stage.above, Text.dropEndWhile]
  · rw [Doc.literalLine, Stage.render_of_runs (Stage.runs_separated hpaired rfl hq hr), hlineEnd]
    simp [Printed.text, Printed.behind, Stage.above]

/-- A fill with a group that breaks and ends in a blank. -/
def Doc.entry : Doc :=
  .fill [.text ['a'], .spaceLine, .grouped (.concat [.text ['b'], .hardLine, .text ['c', ' ']])]

theorem Page.render_hardLine_entry :
    Doc.entry.isValid = true ∧ Doc.entry.hasPairedBreaks = true ∧ Doc.ledger.isValid = true ∧
      ∃ t, Page.render { width := 6 } .ledger = .ok t ∧
        Page.render { width := 6 } (.concat [.entry, .hardLine, .ledger]) =
          .ok (['a', '\n', 'b', '\n', 'c'] ++ '\n' :: t) ∧
        Page.render { width := 6 } (.concat [.entry, .literalLine, .ledger]) =
          .ok (['a', '\n', 'b', '\n', 'c', ' '] ++ '\n' :: t) := by
  have hentry : Doc.entry.isValid = true := by decide +kernel
  have hpaired : Doc.entry.hasPairedBreaks = true := by decide +kernel
  have hledger : Doc.ledger.isValid = true := by decide +kernel
  obtain ⟨s, t, hs, ht, hhard, hliteral⟩ := @render_hardLine _ _ hentry hpaired hledger { width := 6 } rfl
  obtain ⟨⟨q, stack⟩, hq, htest⟩ := (Option.any_eq_true ..).1 (show ((Stage.start .entry).after { width := 6 } 11).any
    (fun s => s.stack.isEmpty && s.printed.text == ['a', '\n', 'b', '\n', 'c', ' ']) = true by decide +kernel)
  simp only [Bool.and_eq_true, List.isEmpty_iff, beq_iff_eq] at htest
  obtain ⟨rfl, htext⟩ := htest
  have hprinted := Stage.render_of_runs (Stage.runs_of_after hq)
  rw [htext, hs] at hprinted
  obtain rfl : s = ['a', '\n', 'b', '\n', 'c', ' '] := by simpa [Text.withLineEnds, LineEnd.image] using hprinted
  exact ⟨hentry, hpaired, hledger, t, ht, hhard, hliteral⟩

end XmlTidy
