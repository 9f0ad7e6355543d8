import XmlTidy.Proofs.Writing

/-!
Documents that fit. In flat mode a document that fits together with what follows it leaves room for what
follows. From this comes a relation between a document and another one that is to take its place: where
every break of the first is either made or ruled out for the same reason, the second is printed alike.
-/

namespace XmlTidy

/-! ### What follows -/

/-- Nothing fits in less than no columns, and what fits still fits with more of them. -/
structure Ahead.Regular (k : Ahead) : Prop where
  of_neg : ∀ w < 0, k w = false
  mono : ∀ {w w'}, w ≤ w' → k w = true → k w' = true

namespace Ahead

theorem regular_clear : clear.Regular := by
  refine ⟨fun w hw => ?_, fun h hw => ?_⟩
  · simp only [clear, decide_eq_false_iff_not]
    omega
  · simp only [clear, decide_eq_true_eq] at hw ⊢
    omega

theorem Regular.nonneg {k : Ahead} (h : k.Regular) {w : Int} (hw : k w = true) : 0 ≤ w := by
  by_contra hneg
  rw [h.of_neg w (by omega)] at hw
  exact Bool.false_ne_true hw

end Ahead

namespace Doc

/-! ### Measuring -/

mutual
/-- What fits with less room or with more behind it still fits. -/
theorem reach_mono {must : Bool} {mode : Mode} {doc : Doc} {k k' : Ahead}
    (hk : ∀ {w w'}, w ≤ w' → k w = true → k' w' = true) {w w' : Int} (h : w ≤ w')
    (hw : reach must mode doc k w = true) : reach must mode doc k' w' = true := by
  cases doc with
  | text t =>
      rw [reach] at hw ⊢
      exact hk (by omega) hw
  | concat parts => rw [reach] at hw ⊢; exact reachAll_mono hk h hw
  | fill parts => rw [reach] at hw ⊢; exact reachAll_mono hk h hw
  | indent contents => rw [reach] at hw ⊢; exact reach_mono hk h hw
  | group contents forced =>
      rw [reach] at hw ⊢
      split at hw
      · rename_i hforced
        rw [if_pos hforced]
        split at hw
        · exact absurd hw Bool.false_ne_true
        · rename_i hmust
          rw [if_neg hmust]
          exact reach_mono hk h hw
      · rename_i hforced
        rw [if_neg hforced]
        exact reach_mono hk h hw
  | ifBreak broken flat =>
      cases mode with
      | broken =>
          rw [reach] at hw ⊢
          split at hw
          · rw [if_pos ‹_›]; exact hk h hw
          · rw [if_neg ‹_›]; exact reach_mono hk h hw
      | flat =>
          rw [reach] at hw ⊢
          split at hw
          · rw [if_pos ‹_›]; exact hk h hw
          · rw [if_neg ‹_›]; exact reach_mono hk h hw
  | line l =>
      rw [reach] at hw ⊢
      split at hw
      · rw [if_pos ‹_›]
        exact Ahead.regular_clear.mono h hw
      · rw [if_neg ‹_›]
        refine hk ?_ hw
        split <;> omega
  | breakParent => rw [reach] at hw ⊢; exact hk h hw
  | stray value => rw [reach] at hw ⊢; exact hk h hw

theorem reachAll_mono {must : Bool} {mode : Mode} {docs : List Doc} {k k' : Ahead}
    (hk : ∀ {w w'}, w ≤ w' → k w = true → k' w' = true) {w w' : Int} (h : w ≤ w')
    (hw : reachAll must mode docs k w = true) : reachAll must mode docs k' w' = true := by
  cases docs with
  | nil => rw [reachAll] at hw ⊢; exact hk h hw
  | cons doc docs =>
      rw [reachAll] at hw ⊢
      exact reach_mono (fun h hw => reachAll_mono hk h hw) h hw
end

theorem regular_reach {k : Ahead} (hk : k.Regular) (must : Bool) (mode : Mode) (doc : Doc) :
    Ahead.Regular (reach must mode doc k) :=
  ⟨reach_of_neg hk.of_neg, reach_mono hk.mono⟩

theorem regular_reachAll {k : Ahead} (hk : k.Regular) (must : Bool) (mode : Mode) (docs : List Doc) :
    Ahead.Regular (reachAll must mode docs k) :=
  ⟨reachAll_of_neg hk.of_neg, reachAll_mono hk.mono⟩

mutual
/-- Where nothing has to break it does not matter whether breaks are allowed. -/
theorem reach_free {must : Bool} {mode : Mode} {doc : Doc} (h : doc.forces = false) (k : Ahead) :
    reach must mode doc k = reach false mode doc k := by
  cases doc with
  | text t => rw [reach, reach]
  | concat parts => rw [reach, reach]; exact reachAll_free (by simpa using h) k
  | fill parts => rw [reach, reach]; exact reachAll_free (by simpa using h) k
  | indent contents =>
      rw [forces_indent] at h
      rw [reach, reach]
      exact reach_free h k
  | group contents forced =>
      rw [forces_group] at h
      rw [reach, reach, h]
      exact reach_free (Bool.or_eq_false_iff.1 h).1 k
  | ifBreak broken flat =>
      rw [forces_ifBreak, Bool.or_eq_false_iff] at h
      cases mode with
      | broken => rw [reach, reach, reach_free h.1 k]
      | flat => rw [reach, reach, reach_free h.2 k]
  | line l => rw [reach, reach]
  | breakParent => rw [reach, reach]
  | stray value => rw [reach, reach]

theorem reachAll_free {must : Bool} {mode : Mode} {docs : List Doc} (h : ∀ doc ∈ docs, doc.forces = false)
    (k : Ahead) : reachAll must mode docs k = reachAll false mode docs k := by
  cases docs with
  | nil => rw [reachAll, reachAll]
  | cons doc docs =>
      rw [reachAll, reachAll, reachAll_free (fun d hd => h d (by simp [hd])) k, reach_free (h doc (by simp))]
end

/-! ### Columns -/

theorem column_write (p : Printed Text Int) (t : Text) (hp : 0 ≤ p.column) :
    0 ≤ (p.write t).column ∧ (p.write t).column ≤ p.column + t.width := by
  have hlast : t.lastLine.width ≤ t.width := by
    have hsplit : t = (t.reverse.dropWhile (· != '\n')).reverse ++ t.lastLine := by
      rw [Text.lastLine, ← List.reverse_append, List.takeWhile_append_dropWhile, List.reverse_reverse]
    rw [hsplit, Text.width_append, ← hsplit]
    omega
  rw [Printed.write_text]
  split <;> constructor <;> simp <;> omega

variable {allowed : Text → Prop} {page : Page}

/-- No column is left of the first. -/
theorem Paired.column {doc : Doc} (h : Paired allowed doc) : Keeps (0 ≤ ·.column) page doc := by
  refine h.keeps (fun p t _ hp => (column_write p t hp).1) (fun p l hp => ?_) fun p depth l hp => ?_
  · rw [Printed.writeFlatLine_eq]
    exact (column_write p _ hp).1
  · simp only [Printed.breakLine_text, Page.ruler]
    split
    · exact Int.le_refl 0
    · exact Int.natCast_nonneg (depth * page.tabWidth)

/-! ### Printing in flat mode -/

/-- In flat mode a document that fits leaves room for what follows. -/
def Leaves (page : Page) (doc : Doc) : Prop :=
  ∀ depth k p, k.Regular → 0 ≤ p.column → doc.forces = false →
    reach false .flat doc k (page.width - p.column) = true →
      k (page.width - (doc.run page depth .flat k p).column) = true

theorem leaves_text (t : Text) : Leaves page (.text t) := by
  intro depth k p hk hp _ hreach
  rw [reach] at hreach
  rw [run]
  have hcolumn := (column_write p t hp).2
  exact hk.mono (by omega) hreach

theorem leaves_line {l : Line} (hl : l.hard = false) : Leaves page (.line l) := by
  intro depth k p hk hp _ hreach
  simp only [reach, hl, reduceCtorEq, decide_false, Bool.or_false, Bool.false_eq_true, if_false] at hreach
  have hcolumn := (column_write p (Printed.flatLine l) hp).2
  have hwidth : (Printed.flatLine l).width = if l.soft then 0 else 1 := by
    rw [Printed.flatLine]
    split <;> rfl
  simp only [run, hl, decide_true, Bool.not_false, Bool.and_true, if_true, Printed.writeFlatLine_eq]
  refine hk.mono ?_ hreach
  split at hwidth <;> split <;> first | omega | contradiction

theorem leaves_runAll {docs : List Doc} (h : ∀ doc ∈ docs, Paired allowed doc ∧ Leaves page doc) (depth : Nat)
    {k : Ahead} {p : Printed Text Int} (hk : k.Regular) (hp : 0 ≤ p.column) (hfree : docs.any forces = false)
    (hreach : reachAll false .flat docs k (page.width - p.column) = true) :
    k (page.width - (runAll page depth .flat docs k p).column) = true := by
  induction docs generalizing p with
  | nil => rw [runAll]; exact hreach
  | cons doc docs ih =>
      rw [List.any_cons, Bool.or_eq_false_iff] at hfree
      obtain ⟨hpaired, hleaves⟩ := h doc (by simp)
      rw [runAll]
      refine ih (fun d hd => h d (by simp [hd])) ?_ hfree.2 ?_
      · exact hpaired.column depth .flat _ p hp
      · exact hleaves depth _ p (regular_reachAll hk false .flat docs) hp hfree.1 hreach

/-- Contents that fit share the line with those before them. -/
theorem leaves_runFill {parts : List Doc} (hparts : FillParts parts)
    (h : ∀ doc ∈ parts, Paired allowed doc ∧ Leaves page doc) (depth : Nat) {k : Ahead} {p : Printed Text Int}
    (hk : k.Regular) (hp : 0 ≤ p.column) (hfree : parts.any forces = false)
    (hreach : reachAll false .flat parts k (page.width - p.column) = true) :
    k (page.width - (runFill page depth .flat parts k p).column) = true := by
  -- a content that fits with what follows it fits alone
  have hclear : ∀ {docs : List Doc} {k : Ahead} {w : Int}, k.Regular → (∀ doc ∈ docs, doc.forces = false) →
      reachAll false .flat docs k w = true → reachAll true .flat docs .clear w = true := by
    intro docs k w hk hdocs hw
    rw [reachAll_free hdocs]
    refine reachAll_mono (fun hle hw => ?_) (Int.le_refl w) hw
    exact Ahead.regular_clear.mono hle (decide_eq_true (hk.nonneg hw))
  induction hparts generalizing p with
  | nil => rw [runFill]; exact hreach
  | @last content hcontent =>
      obtain ⟨-, hleaves⟩ := h content (by simp)
      have hforces : content.forces = false := by simpa using hfree
      have hfits := @hclear [content] k _ hk (by simpa using hforces) hreach
      simp only [reachAll] at hfits hreach
      rw [runFill, hfits]
      exact hleaves depth k p hk hp hforces hreach
  | @cons content rest hcontent l hrest ih =>
      obtain ⟨hpaired, hleaves⟩ := h content (by simp)
      obtain ⟨hline, hleavesLine⟩ := h (.line l) (by simp)
      simp only [List.any_cons, Bool.or_eq_false_iff] at hfree
      obtain ⟨hforces, -, hfreeRest⟩ := hfree
      have hregular := regular_reachAll hk false .flat rest
      have hafter : ∀ q : Printed Text Int, 0 ≤ q.column →
          reach false .flat content (reach false .flat (.line l) (reachAll false .flat rest k))
            (page.width - q.column) = true →
          let r := (Doc.line l).run page depth .flat (reachAll false .flat rest k)
            (content.run page depth .flat (reach false .flat (.line l) (reachAll false .flat rest k)) q)
          0 ≤ r.column ∧ reachAll false .flat rest k (page.width - r.column) = true := by
        intro q hq hreach
        have hcolumn : 0 ≤ (content.run page depth .flat
            (reach false .flat (.line l) (reachAll false .flat rest k)) q).column :=
          hpaired.column depth .flat _ q hq
        refine ⟨hline.column depth .flat _ _ hcolumn, ?_⟩
        exact hleavesLine depth _ _ hregular hcolumn rfl
          (hleaves depth _ q (regular_reach hregular false .flat _) hq hforces hreach)
      cases rest with
      | nil =>
          have hfits := @hclear [content] _ _ (regular_reach hk false .flat (.line l)) (by simpa using hforces)
            hreach
          simp only [reachAll] at hfits
          rw [runFill, hfits]
          exact (hafter p hp hreach).2
      | cons next tail =>
          have hpair := @hclear [content, .line l, next] _ _ (regular_reachAll hk false .flat tail)
            (by simpa [hforces] using (Bool.or_eq_false_iff.1 hfreeRest).1) hreach
          simp only [runFill, hpair, fillMode, Bool.true_or, if_true]
          obtain ⟨hcolumn, hreach'⟩ := hafter p hp hreach
          exact ih (fun d hd => h d (by simp [List.mem_cons.1 hd])) hcolumn hfreeRest hreach'

theorem Paired.leaves {doc : Doc} (h : Paired allowed doc) : Leaves page doc := by
  induction h with
  | text => exact leaves_text _
  | line hl => exact leaves_line hl
  | hardLine =>
      intro depth k p _ _ hfree
      simp [Doc.hardLine] at hfree
  | literalLine =>
      intro depth k p _ _ hfree
      simp [Doc.literalLine] at hfree
  | concat h ih =>
      intro depth k p hk hp hfree hreach
      rw [forces_concat] at hfree
      rw [run]
      exact leaves_runAll (fun d hd => ⟨h d hd, ih d hd⟩) depth hk hp hfree hreach
  | fill h hparts ih =>
      intro depth k p hk hp hfree hreach
      rw [forces_fill] at hfree
      rw [run]
      exact leaves_runFill hparts (fun d hd => ⟨h d hd, ih d hd⟩) depth hk hp hfree hreach
  | indent _ ih =>
      intro depth k p hk hp hfree hreach
      exact ih (depth + 1) k p hk hp hfree hreach
  | group _ forced ih =>
      intro depth k p hk hp hfree hreach
      rw [forces_group] at hfree
      rw [reach, hfree] at hreach
      rw [run, groupMode, hfree]
      exact ih depth k p hk hp (Bool.or_eq_false_iff.1 hfree).1 hreach
  | ifBreak _ _ _ ih =>
      intro depth k p hk hp hfree hreach
      rw [forces_ifBreak, Bool.or_eq_false_iff] at hfree
      rw [reach] at hreach
      rw [run]
      split
      · rwa [if_pos ‹_›] at hreach
      · rw [if_neg ‹_›] at hreach
        exact ih depth k p hk hp hfree.2 hreach

/-! ### Room on a line -/

/-- A document that is to take another's place takes up the same room. This need not be so in flat mode if
it forces the groups around it to break. -/
structure Room (doc doc' : Doc) : Prop where
  broken : ∀ k, doc'.reach false .broken k = doc.reach false .broken k
  flat : doc'.forces = false → doc.forces = false ∧ ∀ k, doc'.reach false .flat k = doc.reach false .flat k

namespace Room

theorem refl (doc : Doc) : Room doc doc := ⟨fun _ => rfl, fun h => ⟨h, fun _ => rfl⟩⟩

theorem cons {doc doc' : Doc} {docs docs' : List Doc} (h : Room doc doc')
    (hrest : Room (.concat docs) (.concat docs')) : Room (.concat (doc :: docs)) (.concat (doc' :: docs')) := by
  refine ⟨fun k => ?_, fun hfree => ?_⟩
  · have hahead := hrest.broken k
    rw [reach, reach] at hahead
    rw [reach, reach, reachAll, reachAll, hahead, h.broken]
  · rw [forces_concat, List.any_cons, Bool.or_eq_false_iff] at hfree
    obtain ⟨hforces, hflat⟩ := h.flat hfree.1
    obtain ⟨hforcesRest, hflatRest⟩ := hrest.flat (by rw [forces_concat]; exact hfree.2)
    rw [forces_concat] at hforcesRest ⊢
    refine ⟨by rw [List.any_cons, hforces, hforcesRest]; rfl, fun k => ?_⟩
    have hahead := hflatRest k
    rw [reach, reach] at hahead
    rw [reach, reach, reachAll, reachAll, hahead, hflat]

theorem indent {doc doc' : Doc} (h : Room doc doc') : Room (.indent doc) (.indent doc') := by
  refine ⟨fun k => ?_, fun hfree => ?_⟩
  · rw [reach, reach, h.broken]
  · obtain ⟨hforces, hflat⟩ := h.flat hfree
    exact ⟨hforces, fun k => by rw [reach, reach, hflat]⟩

theorem grouped {doc doc' : Doc} (h : Room doc doc') : Room doc.grouped doc'.grouped := by
  refine ⟨fun k => ?_, fun hfree => ?_⟩
  · rw [Doc.grouped, Doc.grouped, reach, reach]
    simp only [Bool.false_eq_true, if_false, ite_self, h.broken]
  · rw [Doc.grouped, forces_group, Bool.or_false] at hfree
    obtain ⟨hforces, hflat⟩ := h.flat hfree
    refine ⟨by rw [Doc.grouped, forces_group, hforces, Bool.or_false], fun k => ?_⟩
    rw [Doc.grouped, Doc.grouped, reach, reach, hfree, hforces, hflat]
    rfl

end Room

/-- A place where a document is printed: in flat mode only if it fits. -/
structure Placed (page : Page) (mode : Mode) (k : Ahead) (p : Printed Text Int) (doc : Doc) : Prop where
  regular : k.Regular
  column : 0 ≤ p.column
  fits : mode = .flat → doc.forces = false ∧ doc.reach false .flat k (page.width - p.column) = true

/-- In some place a document can take another's place: what is printed stays the same. -/
structure Reprints (page : Page) (depth : Nat) (mode : Mode) (k : Ahead) (p : Printed Text Int) (doc doc' : Doc) :
    Prop where
  room : Room doc doc'
  free : mode = .flat → doc'.forces = false
  run_eq : doc'.run page depth mode k p = doc.run page depth mode k p

section Places

variable {depth : Nat} {mode : Mode} {k : Ahead} {p : Printed Text Int} {doc doc' : Doc} {docs docs' : List Doc}

theorem Placed.head (h : Placed page mode k p (.concat (doc :: docs))) :
    Placed page mode (reachAll false mode docs k) p doc := by
  refine ⟨regular_reachAll h.regular false mode docs, h.column, ?_⟩
  rintro rfl
  obtain ⟨hfree, hreach⟩ := h.fits rfl
  rw [forces_concat, List.any_cons, Bool.or_eq_false_iff] at hfree
  exact ⟨hfree.1, hreach⟩

theorem Placed.tail (hdoc : Paired allowed doc) (h : Placed page mode k p (.concat (doc :: docs))) (depth : Nat) :
    Placed page mode k (doc.run page depth mode (reachAll false mode docs k) p) (.concat docs) := by
  refine ⟨h.regular, hdoc.column depth mode _ p h.column, ?_⟩
  rintro rfl
  obtain ⟨hfree, hreach⟩ := h.fits rfl
  rw [forces_concat, List.any_cons, Bool.or_eq_false_iff] at hfree
  refine ⟨by rw [forces_concat]; exact hfree.2, ?_⟩
  exact hdoc.leaves depth _ p (regular_reachAll h.regular false .flat docs) h.column hfree.1 hreach

/-- A group that is printed in flat mode fits. -/
theorem Placed.group (h : Placed page mode k p doc.grouped) :
    Placed page (groupMode page mode doc false k p) k p doc := by
  refine ⟨h.regular, h.column, fun hmode => ?_⟩
  rw [groupMode, Bool.or_false] at hmode
  cases hforces : doc.forces with
  | true => rw [hforces] at hmode; cases hmode
  | false =>
      refine ⟨rfl, ?_⟩
      cases mode with
      | flat =>
          have hreach := (h.fits rfl).2
          rwa [grouped, reach, hforces] at hreach
      | broken =>
          rw [hforces] at hmode
          by_contra hreach
          rw [Bool.not_eq_true] at hreach
          rw [hreach] at hmode
          cases hmode

theorem Placed.of_indent (h : Placed page mode k p (.indent doc)) : Placed page mode k p doc :=
  ⟨h.regular, h.column, h.fits⟩

theorem Placed.refl (h : Placed page mode k p doc) : Reprints page depth mode k p doc doc :=
  ⟨.refl doc, fun hmode => (h.fits hmode).1, rfl⟩

theorem Reprints.cons (h : Reprints page depth mode (reachAll false mode docs k) p doc doc')
    (hrest : Reprints page depth mode k (doc.run page depth mode (reachAll false mode docs k) p) (.concat docs)
      (.concat docs')) : Reprints page depth mode k p (.concat (doc :: docs)) (.concat (doc' :: docs')) := by
  have hahead : reachAll false mode docs' k = reachAll false mode docs k := by
    have hsame : reach false mode (.concat docs') k = reach false mode (.concat docs) k := by
      cases mode with
      | broken => exact hrest.room.broken k
      | flat => exact (hrest.room.flat (hrest.free rfl)).2 k
    rwa [reach, reach] at hsame
  refine ⟨h.room.cons hrest.room, fun hmode => ?_, ?_⟩
  · have hfree := hrest.free hmode
    rw [forces_concat] at hfree
    rw [forces_concat, List.any_cons, h.free hmode, hfree]
    rfl
  · have hrun := hrest.run_eq
    rw [run, run] at hrun ⊢
    rw [runAll, runAll, hahead, h.run_eq, hrun]

theorem Reprints.indent (h : Reprints page (depth + 1) mode k p doc doc') :
    Reprints page depth mode k p (.indent doc) (.indent doc') :=
  ⟨h.room.indent, h.free, by rw [run, run, h.run_eq]⟩

/-- A group comes out in the same mode: if it was broken because it did not fit, then what takes its place
does not fit either, or has to break. -/
theorem Reprints.grouped (hplaced : Placed page mode k p doc.grouped)
    (h : Reprints page depth (groupMode page mode doc false k p) k p doc doc') :
    Reprints page depth mode k p doc.grouped doc'.grouped := by
  have hmode : groupMode page mode doc' false k p = groupMode page mode doc false k p := by
    cases hforces : doc'.forces with
    | true =>
        cases hmode : groupMode page mode doc false k p with
        | flat => rw [h.free hmode] at hforces; cases hforces
        | broken => rw [groupMode, hforces]; rfl
    | false =>
        obtain ⟨hfree, hflat⟩ := h.room.flat hforces
        rw [groupMode, groupMode, hforces, hfree, hflat]
  refine ⟨h.room.grouped, ?_, ?_⟩
  · rintro rfl
    have hforces := (hplaced.fits rfl).1
    rw [Doc.grouped, forces_group] at hforces ⊢
    rw [Bool.or_false]
    exact h.free (by rw [groupMode, hforces]; rfl)
  · rw [Doc.grouped, Doc.grouped, run, run, hmode, h.run_eq]

end Places

end Doc

end XmlTidy
