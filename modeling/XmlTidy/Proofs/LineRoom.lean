import XmlTidy.Proofs.Stages
import XmlTidy.Proofs.Writing

/-!
A line that is left unbroken has room for what follows it. In a document without fills, in which every hard line
forces the groups around it to break, a line is left unbroken only inside of a group that was measured, and the
measure reaches up to the next line break. Whatever is decided later on the same line is measured again
or was measured before: so up to the end of the line no column lies beyond the width of the page.
-/

namespace XmlTidy

namespace Doc

/-! ### Anchored documents -/

def isHardLine : Doc → Bool
  | .line l => l.hard
  | _ => false

def isBreakParent : Doc → Bool
  | .breakParent => true
  | _ => false

mutual
/-- Whether a document has no fills and no stray values, its texts hold no newline, and a `breakParent` follows
every hard line. -/
def isAnchored : Doc → Bool
  | .text t => !t.hasNewline
  | .concat parts => allAnchored parts
  | .indent contents | .group contents _ => isAnchored contents
  | .ifBreak broken flat => isAnchored broken && isAnchored flat
  | .line l => !l.hard
  | .breakParent => true
  | .fill _ | .stray _ => false

def allAnchored : List Doc → Bool
  | [] => true
  | doc :: docs => (isAnchored doc || (doc.isHardLine && docs.any isBreakParent)) && allAnchored docs
end

mutual
/-- Whether a document whose groups are marked holds no surprise in a mode: in flat mode there is nothing that
breaks, and a group that need not break holds nothing that does. -/
def isTame (mode : Mode) : Doc → Bool
  | .text t => !t.hasNewline
  | .concat parts => allTame mode parts
  | .indent contents => isTame mode contents
  | .group contents true => mode = .broken && isTame .broken contents
  | .group contents false => isTame .flat contents
  | .ifBreak broken flat => isTame mode broken && isTame mode flat
  | .line l => mode = .broken || !l.hard
  | .breakParent => true
  | .fill _ | .stray _ => false

def allTame (mode : Mode) : List Doc → Bool
  | [] => true
  | doc :: docs => isTame mode doc && allTame mode docs
end

theorem allTame_iff {mode : Mode} {docs : List Doc} :
    allTame mode docs = true ↔ ∀ doc ∈ docs, doc.isTame mode = true := by
  induction docs with
  | nil => simp [allTame]
  | cons doc docs ih => simp [allTame, ih]

mutual
/-- What is tame in flat mode is tame in every mode. -/
theorem isTame_of_flat {mode : Mode} {doc : Doc} (h : doc.isTame .flat = true) : doc.isTame mode = true := by
  cases doc with
  | text t =>
      rw [isTame] at h ⊢
      exact h
  | concat parts =>
      rw [isTame] at h ⊢
      exact allTame_of_flat h
  | indent contents =>
      rw [isTame] at h ⊢
      exact isTame_of_flat h
  | group contents forced =>
      cases forced with
      | true => simp [isTame] at h
      | false =>
          rw [isTame] at h ⊢
          exact h
  | ifBreak broken flat =>
      rw [isTame, Bool.and_eq_true] at h ⊢
      exact ⟨isTame_of_flat h.1, isTame_of_flat h.2⟩
  | line l =>
      have hl : l.hard = false := by simpa [isTame] using h
      simp [isTame, hl]
  | breakParent => rw [isTame]
  | fill parts => simp [isTame] at h
  | stray value => simp [isTame] at h

theorem allTame_of_flat {mode : Mode} {docs : List Doc} (h : allTame .flat docs = true) :
    allTame mode docs = true := by
  cases docs with
  | nil => rw [allTame]
  | cons doc docs =>
      rw [allTame, Bool.and_eq_true] at h ⊢
      exact ⟨isTame_of_flat h.1, allTame_of_flat h.2⟩
end

theorem forces_of_isBreakParent {docs : List Doc} (h : docs.any isBreakParent = true) : docs.any forces = true := by
  obtain ⟨doc, hdoc, hbreak⟩ := List.any_eq_true.1 h
  refine List.any_eq_true.2 ⟨doc, hdoc, ?_⟩
  cases doc with
  | breakParent => rfl
  | _ => cases hbreak

mutual
/-- Marking the groups that have to break tames an anchored document. -/
theorem isTame_settled {doc : Doc} (h : doc.isAnchored = true) :
    doc.settled.isTame .broken = true ∧ (doc.forces = false → doc.settled.isTame .flat = true) := by
  cases doc with
  | text t =>
      rw [isAnchored] at h
      rw [settled_text, isTame, isTame]
      exact ⟨h, fun _ => h⟩
  | concat parts =>
      rw [isAnchored] at h
      rw [settled_concat, isTame, isTame, forces_concat]
      exact allTame_settled h
  | indent contents =>
      rw [isAnchored] at h
      rw [settled_indent, isTame, isTame, forces_indent]
      exact isTame_settled h
  | group contents forced =>
      rw [isAnchored] at h
      obtain ⟨hbroken, hflat⟩ := isTame_settled h
      rw [settled_group, forces_group]
      cases hforces : contents.forces || forced with
      | true => simp [isTame, hbroken]
      | false =>
          rw [isTame, isTame]
          have hcontents := hflat (Bool.or_eq_false_iff.1 hforces).1
          exact ⟨hcontents, fun _ => hcontents⟩
  | ifBreak broken flat =>
      rw [isAnchored, Bool.and_eq_true] at h
      obtain ⟨hbroken, hfree⟩ := isTame_settled h.1
      obtain ⟨hbroken', hfree'⟩ := isTame_settled h.2
      rw [settled_ifBreak, isTame, isTame, hbroken, hbroken', forces_ifBreak, Bool.or_eq_false_iff]
      refine ⟨rfl, fun hforces => ?_⟩
      rw [hfree hforces.1, hfree' hforces.2]
      rfl
  | line l =>
      rw [isAnchored] at h
      simp [settled_line, isTame, h]
  | breakParent => exact ⟨by rw [show breakParent.settled = breakParent from rfl, isTame], by simp⟩
  | fill parts => simp [isAnchored] at h
  | stray value => simp [isAnchored] at h

theorem allTame_settled {docs : List Doc} (h : allAnchored docs = true) :
    allTame .broken (docs.map settled) = true ∧
      (docs.any forces = false → allTame .flat (docs.map settled) = true) := by
  cases docs with
  | nil => simp [allTame]
  | cons doc docs =>
      rw [allAnchored, Bool.and_eq_true, Bool.or_eq_true] at h
      obtain ⟨hdoc, hdocs⟩ := h
      obtain ⟨hbroken, hflat⟩ := allTame_settled hdocs
      rw [List.map_cons, allTame, allTame, List.any_cons, Bool.or_eq_false_iff, hbroken]
      rcases hdoc with hanchored | hhard
      · obtain ⟨hbroken', hflat'⟩ := isTame_settled hanchored
        rw [hbroken']
        refine ⟨rfl, fun hforces => ?_⟩
        rw [hflat' hforces.1, hflat hforces.2]
        rfl
      · -- a hard line is tame in broken mode, and what follows it rules out flat mode
        rw [Bool.and_eq_true] at hhard
        refine ⟨?_, fun hforces => ?_⟩
        · cases doc with
          | line l => simp [settled_line, isTame]
          | _ => cases hhard.1
        · rw [forces_of_isBreakParent hhard.2] at hforces
          cases hforces.2
end

mutual
theorem isValid_of_isAnchored {doc : Doc} (h : doc.isAnchored = true) : doc.isValid = true := by
  cases doc with
  | concat parts =>
      rw [isAnchored] at h
      rw [isValid]
      exact allValid_of_allAnchored h
  | indent contents | group contents _ =>
      rw [isAnchored] at h
      rw [isValid]
      exact isValid_of_isAnchored h
  | ifBreak broken flat =>
      rw [isAnchored, Bool.and_eq_true] at h
      rw [isValid, isValid_of_isAnchored h.1, isValid_of_isAnchored h.2]
      rfl
  | text | line | breakParent => rw [isValid]
  | fill parts => simp [isAnchored] at h
  | stray value => simp [isAnchored] at h

theorem allValid_of_allAnchored {docs : List Doc} (h : allAnchored docs = true) : allValid docs = true := by
  cases docs with
  | nil => rw [allValid]
  | cons doc docs =>
      rw [allAnchored, Bool.and_eq_true, Bool.or_eq_true] at h
      rw [allValid, allValid_of_allAnchored h.2, Bool.and_true]
      rcases h.1 with hanchored | hhard
      · exact isValid_of_isAnchored hanchored
      · cases doc with
        | line l => rw [isValid]
        | _ => cases hhard
end

end Doc

/-! ### Measuring does not look at indentation -/

theorem fits_depth (mustBeFlat : Bool) (width : Int) (depth depth' : Nat) (mode : Mode) (doc : Doc)
    (rest : List Command) :
    fits mustBeFlat width (⟨depth, mode, doc⟩ :: rest) = fits mustBeFlat width (⟨depth', mode, doc⟩ :: rest) := by
  rw [fits_eq_scan, fits_eq_scan]
  rfl

/-! ### What a step does to a line -/

namespace Printed

/-- How many lines have been ended. -/
def ended (p : Printed Text Int) : Nat := p.reversed.count '\n'

theorem ended_write {t : Text} (h : t.hasNewline = false) (p : Printed Text Int) : (p.write t).ended = p.ended := by
  have ht : t.reverse.count '\n' = 0 := by
    rw [List.count_reverse, List.count_eq_zero]
    exact Text.not_mem_of_hasNewline h
  rw [ended, write_text, List.count_append, ht, Nat.zero_add, ended]

theorem column_write_line {t : Text} (h : t.hasNewline = false) (p : Printed Text Int) :
    (p.write t).column = p.column + t.width := by
  simp [write_text, h]

theorem hasNewline_flatLine (l : Line) : (flatLine l).hasNewline = false := by
  rw [flatLine]
  split <;> rfl

theorem count_dropWhile_isPadding (t : Text) : (t.dropWhile isPadding).count '\n' = t.count '\n' := by
  induction t with
  | nil => rfl
  | cons c t ih =>
      rw [List.dropWhile_cons]
      split
      · next hc =>
          have hne : c ≠ '\n' := by
            rintro rfl
            cases hc
          rw [ih, List.count_cons_of_ne hne]
      · rfl

theorem ended_breakLine (page : Page) (depth : Nat) (mode : Mode) (l : Line) (p : Printed Text Int) :
    (p.breakLine page.ruler depth mode l).ended = p.ended + 1 := by
  simp only [breakLine_text]
  split
  · rw [ended, List.count_cons_self, ended]
  · have hindentation : (page.ruler.indentation depth).reverse.count '\n' = 0 := by
      rw [List.count_reverse, List.count_eq_zero]
      exact Text.not_mem_of_hasNewline (hasNewline_indentation page depth)
    rw [ended, List.count_append, hindentation, List.count_cons_self, count_dropWhile_isPadding, Nat.zero_add, ended]

end Printed

namespace Stage

variable {page : Page} {p : Printed Text Int} {c : Command} {rest : List Command} {s s' : Stage}

/-- What is left at a stage, up to the next line break, fits on the line. -/
def Fits (page : Page) (s : Stage) : Prop :=
  fits false (page.width - s.printed.column) s.stack = .ok true

theorem Fits.column_le (h : Fits page s) : s.printed.column ≤ page.width := by
  by_contra hlt
  rw [Fits, Doc.fits_of_neg (by omega)] at h
  cases h

/-- What fits is measured one command further. -/
theorem Fits.measures {answer : Except Stray Bool} (h : Fits page s)
    (heq : 0 ≤ page.width - s.printed.column → fits false (page.width - s.printed.column) s.stack = answer) :
    answer = .ok true := by
  have hw := h.column_le
  exact (heq (by omega)).symm.trans h

/-- What a step does with the first command: either it stays on the line, and puts in its place commands
that are tame in their mode, or it ends the line. -/
inductive Effect (page : Page) (p : Printed Text Int) (c : Command) (rest : List Command) : Stage → Prop where
  | stays {p' : Printed Text Int} {new : List Command} {mode : Mode}
      (hnew : ∀ d ∈ new, d.mode = mode ∧ d.doc.isTame mode = true)
      (hbroken : mode = .broken → c.mode = .broken)
      (hflat : mode = .flat → c.mode = .flat ∨ Fits page ⟨p', new ++ rest⟩)
      (hended : p'.ended = p.ended) (hcolumn : p.column ≤ p'.column) (hremeasure : p'.remeasure = false)
      (hfits : Fits page ⟨p, c :: rest⟩ → Fits page ⟨p', new ++ rest⟩) : Effect page p c rest ⟨p', new ++ rest⟩
  | ends {p' : Printed Text Int} (hmode : c.mode = .broken) (hended : p'.ended = p.ended + 1)
      (hremeasure : p'.remeasure = false) : Effect page p c rest ⟨p', rest⟩

theorem Effect.writes {t : Text} (ht : t.hasNewline = false) (hp : p.remeasure = false)
    (hfits : Fits page ⟨p, c :: rest⟩ → fits false (page.width - p.column - t.width) rest = .ok true) :
    Effect page p c rest ⟨p.write t, rest⟩ := by
  refine @Effect.stays page p c rest (p.write t) [] c.mode (by simp) id .inl (Printed.ended_write ht p) ?_ hp ?_
  · rw [Printed.column_write_line ht]
    omega
  · intro h
    rw [Fits, Printed.column_write_line ht, ← Int.sub_sub]
    exact hfits h

theorem Effect.replaces {new : List Command} (hp : p.remeasure = false)
    (hnew : ∀ d ∈ new, d.mode = c.mode ∧ d.doc.isTame c.mode = true)
    (hfits : Fits page ⟨p, c :: rest⟩ → Fits page ⟨p, new ++ rest⟩) : Effect page p c rest ⟨p, new ++ rest⟩ :=
  .stays hnew id .inl rfl (Int.le_refl _) hp hfits

theorem Effect.drops (hp : p.remeasure = false) (hfits : Fits page ⟨p, c :: rest⟩ → Fits page ⟨p, rest⟩) :
    Effect page p c rest ⟨p, rest⟩ :=
  @Effect.replaces page p c rest [] hp (by simp) hfits

theorem Effect.replaces_one {d : Command} (hp : p.remeasure = false) (hmode : d.mode = c.mode)
    (hd : d.doc.isTame c.mode = true) (hfits : Fits page ⟨p, c :: rest⟩ → Fits page ⟨p, d :: rest⟩) :
    Effect page p c rest ⟨p, d :: rest⟩ :=
  @Effect.replaces page p c rest [d] hp (by simp [hmode, hd]) hfits

/-- A group is put in flat mode only if it is in flat mode already or fits. -/
theorem effect_group {depth : Nat} {mode : Mode} {contents : Doc} {forced : Bool} (hp : p.remeasure = false)
    (hdoc : (Doc.group contents forced).isTame mode = true)
    (h : Step page ⟨p, ⟨depth, mode, .group contents forced⟩ :: rest⟩ s') :
    Effect page p ⟨depth, mode, .group contents forced⟩ rest s' := by
  have hsame : { p with remeasure := false } = p := by rw [← hp]
  have hmeasure : ∀ m, (if forced then Mode.broken else mode) = m →
      Fits page ⟨p, ⟨depth, mode, .group contents forced⟩ :: rest⟩ → Fits page ⟨p, ⟨depth, m, contents⟩ :: rest⟩ := by
    rintro m rfl hfits
    refine hfits.measures fun hw => ?_
    rw [fits.eq_def, if_pos hw]
    rfl
  simp only [Step, next, hp, Bool.not_false, Bool.and_true, decide_eq_true_eq, hsame] at h
  cases forced with
  | true =>
      simp only [Doc.isTame, Bool.and_eq_true, decide_eq_true_eq] at hdoc
      obtain ⟨rfl, hcontents⟩ := hdoc
      obtain rfl : ⟨p, ⟨depth, .broken, contents⟩ :: rest⟩ = s' := by simpa using h
      exact .replaces_one hp rfl hcontents (hmeasure .broken rfl)
  | false =>
      rw [Doc.isTame] at hdoc
      cases mode with
      | flat =>
          obtain rfl : ⟨p, ⟨depth, .flat, contents⟩ :: rest⟩ = s' := by simpa using h
          exact .replaces_one hp rfl hdoc (hmeasure .flat rfl)
      | broken =>
          simp only [reduceCtorEq, if_false, Bool.false_eq_true] at h
          split at h
          · cases h
          · next flat hfits =>
              cases flat with
              | true =>
                  obtain rfl : ⟨p, ⟨depth, .flat, contents⟩ :: rest⟩ = s' := by simpa using h
                  exact @Effect.stays page p _ rest p [⟨depth, .flat, contents⟩] .flat (by simp [hdoc]) (by simp)
                    (fun _ => .inr hfits) rfl (Int.le_refl _) hp fun _ => hfits
              | false =>
                  obtain rfl : ⟨p, ⟨depth, .broken, contents⟩ :: rest⟩ = s' := by simpa using h
                  exact .replaces_one hp rfl (Doc.isTame_of_flat hdoc) (hmeasure .broken rfl)

theorem effect_line {depth : Nat} {mode : Mode} {l : Line} (hp : p.remeasure = false)
    (hdoc : (Doc.line l).isTame mode = true) (h : Step page ⟨p, ⟨depth, mode, .line l⟩ :: rest⟩ s') :
    Effect page p ⟨depth, mode, .line l⟩ rest s' := by
  cases mode with
  | flat =>
      have hl : l.hard = false := by simpa [Doc.isTame] using hdoc
      obtain rfl : ⟨p.writeFlatLine l, rest⟩ = s' := by simpa [Step, next, hl] using h
      rw [Printed.writeFlatLine_eq]
      refine .writes (Printed.hasNewline_flatLine l) hp fun hfits => hfits.measures fun hw => ?_
      rw [fits.eq_def, if_pos hw, Printed.flatLine]
      simp only [reduceCtorEq, decide_false, hl, Bool.or_false, Bool.false_eq_true, if_false]
      cases l.soft with
      | true => simp [Text.width]
      | false => rfl
  | broken =>
      obtain rfl : ⟨p.breakLine page.ruler depth .broken l, rest⟩ = s' := by simpa [Step, next] using h
      refine .ends rfl (Printed.ended_breakLine ..) ?_
      simp only [Printed.breakLine_text]
      split <;> simp [hp]

/-- A step stays on the line or ends it. -/
theorem Step.effect (hp : p.remeasure = false) (hc : c.doc.isTame c.mode = true)
    (h : Step page ⟨p, c :: rest⟩ s') : Effect page p c rest s' := by
  obtain ⟨depth, mode, doc⟩ := c
  cases doc with
  | text t =>
      cases h
      have ht : t.hasNewline = false := by simpa [Doc.isTame] using hc
      refine .writes ht hp fun hfits => hfits.measures fun hw => ?_
      rw [fits.eq_def, if_pos hw]
  | concat parts =>
      cases h
      rw [Doc.isTame, Doc.allTame_iff] at hc
      refine .replaces hp ?_ fun hfits => hfits.measures fun hw => ?_
      · intro d hd
        obtain ⟨doc, hdoc, rfl⟩ := List.mem_map.1 hd
        exact ⟨rfl, hc doc hdoc⟩
      · rw [fits.eq_def, if_pos hw]
        rfl
  | indent contents =>
      cases h
      rw [Doc.isTame] at hc
      refine .replaces_one hp rfl hc fun hfits => hfits.measures fun hw => ?_
      rw [fits.eq_def, if_pos hw]
      exact fits_depth ..
  | group contents forced => exact effect_group hp hc h
  | ifBreak broken flat =>
      rw [Doc.isTame, Bool.and_eq_true] at hc
      have hchosen : (mode.choose broken flat).isTame mode = true := by
        cases mode with
        | broken => exact hc.1
        | flat => exact hc.2
      simp only [Step, next] at h
      split at h
      · next hvoid =>
          cases h
          refine .drops hp fun hfits => hfits.measures fun hw => ?_
          rw [fits.eq_def, if_pos hw]
          exact if_pos hvoid
      · next hvoid =>
          cases h
          refine .replaces_one hp rfl hchosen fun hfits => hfits.measures fun hw => ?_
          rw [fits.eq_def, if_pos hw]
          exact if_neg hvoid
  | line l => exact effect_line hp hc h
  | breakParent =>
      cases h
      refine .drops hp fun hfits => hfits.measures fun hw => ?_
      rw [fits.eq_def, if_pos hw]
  | fill parts => simp [Doc.isTame] at hc
  | stray value => cases h

/-! ### What all stages have in common -/

/-- Stages of tame commands, those in flat mode first: if there are any, then what is left fits on the line. -/
structure Orderly (page : Page) (s : Stage) : Prop where
  tame : ∀ c ∈ s.stack, c.doc.isTame c.mode = true
  order : s.stack.Pairwise fun c d => c.mode = .broken → d.mode = .broken
  remeasure : s.printed.remeasure = false
  fits : ∀ c ∈ s.stack, c.mode = .flat → Fits page s

theorem orderly_start {doc : Doc} (h : doc.isAnchored = true) (page : Page) : Orderly page (start doc) where
  tame := by simpa [start] using (Doc.isTame_settled h).1
  order := by simp [start]
  remeasure := rfl
  fits := by simp [start]

/-- A step keeps the order of the commands, and measures what it puts in flat mode. -/
theorem Orderly.effect (hs : Orderly page ⟨p, c :: rest⟩) (h : Effect page p c rest s') : Orderly page s' := by
  obtain ⟨htame, horder, -, hflats⟩ := hs
  rw [List.forall_mem_cons] at htame hflats
  obtain ⟨hrest, hpairs⟩ := List.pairwise_cons.1 horder
  cases h with
  | @stays p' new mode hnew hbroken hflat hended hcolumn hremeasure hfits =>
      refine ⟨?_, ?_, hremeasure, ?_⟩
      · intro d hd
        rcases List.mem_append.1 hd with hd | hd
        · obtain ⟨rfl, hd⟩ := hnew d hd
          exact hd
        · exact htame.2 d hd
      · refine List.pairwise_append.2 ⟨?_, hpairs, ?_⟩
        · refine List.pairwise_of_forall_mem_list ?_
          intro d hd e he hmode
          rw [(hnew e he).1, ← (hnew d hd).1, hmode]
        · intro d hd e he hmode
          exact hrest e he (hbroken ((hnew d hd).1 ▸ hmode))
      · intro d hd hmode
        rcases List.mem_append.1 hd with hd | hd
        · rcases hflat ((hnew d hd).1 ▸ hmode) with hc | hfits'
          · exact hfits (hflats.1 hc)
          · exact hfits'
        · exact hfits (hflats.2 d hd hmode)
  | ends hmode hended hremeasure =>
      refine ⟨htame.2, hpairs, hremeasure, ?_⟩
      intro d hd hflat
      rw [hrest d hd hmode] at hflat
      cases hflat

theorem Orderly.step_effect (hs : Orderly page s) (h : Step page s s') :
    ∃ p c rest, s = ⟨p, c :: rest⟩ ∧ Effect page p c rest s' := by
  obtain ⟨p, stack⟩ := s
  cases stack with
  | nil => cases h
  | cons c rest => exact ⟨p, c, rest, rfl, Step.effect hs.remeasure (hs.tame c (by simp)) h⟩

theorem Orderly.runs (hs : Orderly page s) (h : Runs page s s') : Orderly page s' := by
  induction h with
  | refl => exact hs
  | tail _ hstep ih =>
      obtain ⟨p, c, rest, rfl, heffect⟩ := ih.step_effect hstep
      exact ih.effect heffect

/-- Lines that have ended stay ended. -/
theorem Orderly.ended_le (hs : Orderly page s) (h : Runs page s s') : s.printed.ended ≤ s'.printed.ended := by
  induction h with
  | refl => exact Nat.le_refl _
  | @tail s₁ s₂ hruns hstep ih =>
      obtain ⟨p, c, rest, rfl, heffect⟩ := (hs.runs hruns).step_effect hstep
      cases heffect with
      | stays _ _ _ hended => exact ih.trans (Nat.le_of_eq hended.symm)
      | ends _ hended => exact ih.trans (hended ▸ Nat.le_succ _)

/-- On one line columns only grow, and what fits goes on to fit. -/
theorem Orderly.same_line (hs : Orderly page s) (h : Runs page s s') (hended : s'.printed.ended = s.printed.ended) :
    s.printed.column ≤ s'.printed.column ∧ (Fits page s → Fits page s') := by
  induction h with
  | refl => exact ⟨Int.le_refl _, id⟩
  | @tail s₁ s₂ hruns hstep ih =>
      have hle := hs.ended_le hruns
      obtain ⟨p, c, rest, rfl, heffect⟩ := (hs.runs hruns).step_effect hstep
      cases heffect with
      | stays _ _ _ hended' hcolumn _ hfits =>
          obtain ⟨hcolumn', hfits'⟩ := ih (hended'.symm.trans hended)
          exact ⟨Int.le_trans hcolumn' hcolumn, fun h => hfits (hfits' h)⟩
      | ends _ hended' =>
          simp only at hle hended hended'
          omega

/-- Whether the next step leaves a line unbroken that is not hard. -/
def leavesUnbroken : Stage → Bool
  | ⟨_, ⟨_, .flat, .line l⟩ :: _⟩ => !l.hard
  | _ => false

theorem Orderly.fits_of_leavesUnbroken (hs : Orderly page s) (h : s.leavesUnbroken = true) : Fits page s := by
  unfold leavesUnbroken at h
  split at h
  · exact hs.fits _ List.mem_cons_self rfl
  · cases h

end Stage

/-- Nothing optional overflows: a page prints an anchored document stage by stage, and on a line on which some stage
leaves a line unbroken, no stage is at a column beyond the width of the page. -/
theorem Page.column_le_of_leavesUnbroken {doc : Doc} (h : doc.isAnchored = true) (page : Page) :
    (∃ q, Stage.Runs page (.start doc) ⟨q, []⟩ ∧
        page.render doc = .ok (q.text.withLineEnds page.lineEnd.image)) ∧
      ∀ s s', Stage.Runs page (.start doc) s → Stage.Runs page (.start doc) s' → s.leavesUnbroken = true →
        s'.printed.ended = s.printed.ended → s'.printed.column ≤ page.width := by
  refine ⟨Stage.exists_runs_start page (Doc.isValid_of_isAnchored h), ?_⟩
  intro s s' hruns hruns' hline hended
  have hs := (Stage.orderly_start h page).runs hruns
  have hs' := (Stage.orderly_start h page).runs hruns'
  have hfits := hs.fits_of_leavesUnbroken hline
  -- one of the two stages comes before the other
  rcases hruns.total_of_right_unique (Stage.rightUnique_step page) hruns' with hlater | hearlier
  · exact ((hs.same_line hlater hended).2 hfits).column_le
  · exact Int.le_trans (hs'.same_line hearlier hended.symm).1 hfits.column_le

/-- A group that is measured together with the text behind it, and a line that is too long. -/
def Doc.ledger : Doc :=
  .concat [.grouped (.concat [.text ['a', 'a'], .spaceLine, .text ['b', 'b']]), .text ['c'], .hardLine,
    .text ['d', 'd', 'd', 'd', 'd', 'd', 'd']]

/-- With six columns the group of the ledger stays on its line, and the text behind it takes up the last column. -/
theorem Page.column_le_of_leavesUnbroken_ledger :
    Doc.ledger.isAnchored = true ∧
      ∃ s s', Stage.Runs { width := 6 } (.start .ledger) s ∧ Stage.Runs { width := 6 } (.start .ledger) s' ∧
        s.leavesUnbroken = true ∧ s'.printed.ended = s.printed.ended ∧ s.printed.column = 2 ∧
        s'.printed.column = 6 ∧ s'.printed.column ≤ (6 : Nat) := by
  have hanchored : Doc.ledger.isAnchored = true := by decide +kernel
  obtain ⟨s, hs, htest⟩ := (Option.any_eq_true ..).1 (show ((Stage.start .ledger).after { width := 6 } 4).any
    (fun s => s.leavesUnbroken && s.printed.ended == 0 && s.printed.column == 2) = true by decide +kernel)
  obtain ⟨s', hs', htest'⟩ := (Option.any_eq_true ..).1 (show ((Stage.start .ledger).after { width := 6 } 7).any
    (fun s => s.printed.ended == 0 && s.printed.column == 6) = true by decide +kernel)
  simp only [Bool.and_eq_true, beq_iff_eq] at htest htest'
  obtain ⟨⟨hline, hended⟩, hcolumn⟩ := htest
  have hruns := Stage.runs_of_after hs
  have hruns' := Stage.runs_of_after hs'
  have hsame := htest'.1.trans hended.symm
  exact ⟨hanchored, s, s', hruns, hruns', hline, hsame, hcolumn, htest'.2,
    (column_le_of_leavesUnbroken hanchored { width := 6 }).2 s s' hruns hruns' hline hsame⟩

end XmlTidy
